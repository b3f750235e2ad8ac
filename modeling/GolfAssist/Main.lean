import GolfAssist.Editor.Declaration

/-!
# The generator of declarations

The program writes the declarations of all that an editor is sent into the directory `generated`,
which it makes if it is not there.
-/

/-- Writes the file of declarations. -/
def main : IO Unit := do
  IO.FS.createDirAll "generated"
  IO.FS.writeFile "generated/wasm_dto.ts" GolfAssist.Editor.declarationFile
