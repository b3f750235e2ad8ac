import GolfAssist.Editor.View
import GolfAssist.Proofs.Completion.Variables

/-!
# Completion in code units

* `Completion.exists_typed_of_complete` — what an accepted candidate replaces stands directly in
  front of the cursor, and is ASCII.
* `Editor.Shows` — a view shows a completion: the same context, the same candidates, and an anchor
  as far from the cursor in code units as it is in bytes.
* `Editor.completion_in_units` — an editor gets the completion of the library seen in code units: no
  completion where the library has none, and an error only for settings that cannot be read or for a
  cursor that is not between two characters.

Offsets are taken apart into texts: a cursor is a first part of the source, in whatever it is
measured. Bytes and code units are the same number for ASCII, so it is enough to know which
characters stand between the anchor and the cursor.
-/

namespace GolfAssist

open Text

/-! ## ASCII -/

namespace Text

/-- An ASCII character has one byte and one code unit. -/
theorem sizes_of_isAscii {c : Char} (h : c.toNat < 128) : c.utf8Size = 1 ∧ units c = 1 := by
  constructor
  · have hval : c.val ≤ 127 := UInt32.le_iff_toNat_le.mpr (Nat.le_of_lt_succ h)
    exact Char.utf8Size_eq_one_iff.mpr hval
  · rw [units, if_pos (by omega)]

/-- An ASCII text has as many bytes as code units. -/
theorem byteLength_eq_unitLength {cs : List Char} (h : ∀ c ∈ cs, c.toNat < 128) :
    byteLength cs = unitLength cs := by
  induction cs with
  | nil => rfl
  | cons c cs ih =>
      obtain ⟨hbytes, hunits⟩ := sizes_of_isAscii (h c List.mem_cons_self)
      rw [byteLength_cons, unitLength_cons, hbytes, hunits,
        ih fun d hd => h d (List.mem_cons_of_mem _ hd)]

end Text

/-- The characters of words are ASCII. -/
theorem Lexicon.toNat_lt_of_isWordChar {c : Char} (h : isWordChar c) : c.toNat < 128 := by
  rw [isWordChar, Bool.or_eq_true, beq_iff_eq] at h
  rcases h with rfl | h
  · decide
  · rw [Char.isAlphanum, Bool.or_eq_true] at h
    rcases h with h | h
    · have hletter := Token.toNat_of_isAlpha h
      omega
    · have hdigit : c.toNat ≤ 57 := (Char.isDigit_iff_toNat.mp h).2
      omega

/-! ## What is replaced -/

namespace Completion

open Lexicon

/-- The reference puts the anchor in front of the word or of the sign that stands before it. -/
theorem exists_suffix_of_reference {inType explicit : Bool} {cursor : Nat} {near word : List Char}
    {c : Classification} (h : reference inType explicit cursor near word = some c)
    (hsuffix : word <:+ near) (hword : ∀ ch ∈ word, isWordChar ch) :
    ∃ typed, typed <:+ near ∧ c.anchor = cursor - byteLength typed ∧
      ∀ ch ∈ typed, ch.toNat < 128 := by
  have hascii : ∀ ch ∈ word, ch.toNat < 128 := fun ch hch => toNat_lt_of_isWordChar (hword ch hch)
  have hsign : ∀ sign : Char, sign.toNat < 128 → ∀ ch ∈ sign :: word, ch.toNat < 128 :=
    fun sign hlt => List.forall_mem_cons.mpr ⟨hlt, hascii⟩
  unfold reference at h
  split at h
  case isTrue hsigil =>
    cases h
    exact ⟨_, hsigil, rfl, hsign '$' (by decide)⟩
  split at h
  case isTrue hopened =>
    cases h
    refine ⟨'(' :: word, ?_, rfl, hsign '(' (by decide)⟩
    rcases hopened with hopened | hopened
    · exact (List.suffix_append [':'] _).trans hopened
    · exact (List.suffix_append [':', ' '] _).trans hopened
  split at h
  case isTrue =>
    cases h
    exact ⟨word, hsuffix, rfl, hascii⟩
  split at h
  case isTrue => cases h
  cases h
  exact ⟨word, hsuffix, rfl, hascii⟩

variable {source : String} {cursor : Nat} {explicit : Bool} {config : Config}

/-- What stands between the anchor and the cursor is ASCII. -/
theorem exists_typed_of_classify {tree : Node} {c : Classification}
    (h : classify source tree cursor explicit config = .ok (some c)) :
    ∃ typed, slice? c.anchor cursor source.toList = some typed ∧ ∀ ch ∈ typed, ch.toNat < 128 := by
  unfold classify at h
  split at h
  · cases h
  rename_i before after hsplit
  obtain ⟨hsource, hlength⟩ := splitAt?_eq_some_iff.mp hsplit
  have hbehind := Except.ok.inj h
  rw [classifyBehind_eq_reference] at hbehind
  obtain ⟨hsuffix, hword, -⟩ := isLongestSuffix_word (window config.lookbehind before.reverse)
  obtain ⟨typed, htyped, hanchor, hascii⟩ := exists_suffix_of_reference hbehind hsuffix hword
  obtain ⟨front, rfl⟩ := htyped.trans (isLongestSuffix_window config.lookbehind before).isSuffix
  refine ⟨typed, slice?_eq_some_iff.mpr ⟨front, after, hsource, ?_, ?_⟩, hascii⟩
  all_goals
    rw [byteLength_append] at hlength
    omega

/-- What an accepted candidate replaces is ASCII and ends at the cursor. -/
theorem exists_typed_of_complete {c : Completion}
    (h : complete source cursor explicit config = .ok (some c)) :
    ∃ typed, slice? c.anchor cursor source.toList = some typed ∧ ∀ ch ∈ typed, ch.toNat < 128 := by
  obtain ⟨classification, hclassify, rfl⟩ := complete_eq_some_iff.mp h
  exact exists_typed_of_classify hclassify

/-- A cursor between two characters is never rejected. -/
theorem exists_complete_eq_ok {before after : List Char} (h : source.toList = before ++ after)
    (explicit : Bool) (config : Config) :
    ∃ found, complete source (byteLength before) explicit config = .ok found := by
  rw [complete, completeIn, classify, h, splitAt?_append]
  exact ⟨_, rfl⟩

end Completion

/-! ## Views -/

namespace Editor

/-- The settings of a request: those of the given text, and the defaults where there is none. -/
def settings? (config? : Option String) : Option Completion.Config :=
  config?.elim (some .default) Completion.Config.parse?

/-- An editor shows a candidate under its label, by the name of its group, and with the number of
its preference if it has one. -/
structure ShowsCandidate (c : Completion.Candidate) (view : CandidateView) : Prop where
  label : view.label = c.label
  kind : (c.kind, view.kind) ∈
    [(.type, "type"), (.keyword, "keyword"), (.variable, "variable")]
  boost : (c.boost, view.boost) ∈ [(none, none), (some .low, some 0), (some .high, some 1)]

/-- An editor that is at `cursor` in code units, where the library is at `offset` in bytes, shows a
completion. -/
structure Shows (source : String) (cursor offset : Nat) (c : Completion) (view : CompletionView) :
    Prop where
  context : (c.context, view.context) ∈
    [(.variableReference, "VariableReference"), (.typePosition, "TypePosition"),
      (.general, "General")]
  items : List.Forall₂ ShowsCandidate c.candidates view.items
  /-- The anchor is not behind the cursor. -/
  anchor_le : view.anchor ≤ cursor
  /-- It is as far from the cursor in code units as in bytes. -/
  distance : cursor - view.anchor = offset - c.anchor
  /-- It is the anchor of the completion. -/
  anchor : byteOfUnit? view.anchor source.toList = some c.anchor
  /-- An accepted candidate replaces ASCII. -/
  replaced : ∃ typed, slice? c.anchor offset source.toList = some typed ∧
    ∀ ch ∈ typed, ch.toNat < 128

/-- Every candidate is shown by its view. -/
theorem showsCandidate_candidateView (c : Completion.Candidate) :
    ShowsCandidate c (candidateView c) := by
  obtain ⟨label, kind, boost⟩ := c
  refine ⟨rfl, ?_, ?_⟩
  · cases kind <;> simp [candidateView, groupName]
  · rcases boost with - | - | - <;> simp [candidateView, Completion.Boost.value]

/-- The view of a completion, with its anchor in code units. -/
def completionView (source : String) (c : Completion) : CompletionView :=
  ⟨contextName c.context, unitOfByte c.anchor source.toList, c.candidates.map candidateView⟩

/-- Every completion is shown by its view. -/
theorem shows_completionView {source : String} {explicit : Bool} {config : Completion.Config}
    {before after : List Char} {c : Completion} (hsource : source.toList = before ++ after)
    (h : Completion.complete source (byteLength before) explicit config = .ok (some c)) :
    Shows source (unitLength before) (byteLength before) c (completionView source c) := by
  obtain ⟨typed, hslice, hascii⟩ := Completion.exists_typed_of_complete h
  obtain ⟨front, rest, hparts, hanchor, hlength⟩ := slice?_eq_some_iff.mp hslice
  rw [← hanchor, ← byteLength_append] at hlength
  -- what stands in front of the anchor and what is replaced are the text in front of the cursor
  obtain ⟨rfl, -⟩ := Prod.mk.inj (Option.some.inj
    ((splitAt?_eq_some_iff.mpr ⟨hsource, rfl⟩).symm.trans
      (splitAt?_eq_some_iff.mpr ⟨hparts, hlength⟩)))
  have hsame := byteLength_eq_unitLength hascii
  have hunits : (completionView source c).anchor = unitLength front := by
    rw [completionView, hparts, ← hanchor, List.append_assoc, unitOfByte_append]
  refine ⟨?_, ?_, ?_, ?_, ?_, typed, hslice, hascii⟩
  · rw [completionView]
    cases c.context <;> simp [contextName]
  · rw [completionView, List.forall₂_map_right_iff]
    exact List.forall₂_same.mpr fun candidate _ => showsCandidate_candidateView candidate
  · rw [hunits, unitLength_append]
    omega
  · rw [hunits, unitLength_append, byteLength_append, ← hanchor]
    omega
  · rw [hunits, hparts, List.append_assoc, byteOfUnit?_append, hanchor]

/-! ## Requests -/

section Requests

variable (source : String) (cursor : Nat) (explicit : Bool) {config? : Option String}

/-- Settings that cannot be read are reported, whatever the cursor. -/
theorem completion_of_settings_none (h : settings? config? = none) :
    completion source cursor explicit config? = .error "Invalid completion config" := by
  cases config? with
  | none => cases h
  | some text =>
      replace h : Completion.Config.parse? text = none := h
      rw [completion, complete, Completion.Config.parse, h]
      rfl

variable {config : Completion.Config}

/-- With settings that can be read, a request goes on with its cursor. -/
theorem complete_of_settings_some (h : settings? config? = some config) :
    complete source cursor explicit config? =
      match byteOfUnit? cursor source.toList with
      | none => .error .invalidCursor
      | some offset => (Completion.complete source offset explicit config).map fun found =>
          found.map fun c => { c with anchor := unitOfByte c.anchor source.toList } := by
  cases config? with
  | none =>
      obtain rfl := Option.some.inj h
      rw [complete]
      cases byteOfUnit? cursor source.toList <;> rfl
  | some text =>
      replace h : Completion.Config.parse? text = some config := h
      rw [complete, Completion.Config.parse, h]
      cases byteOfUnit? cursor source.toList <;> rfl

/-- A cursor that is not between two characters is reported. -/
theorem completion_of_byteOfUnit?_none (h : settings? config? = some config)
    (hcursor : byteOfUnit? cursor source.toList = none) :
    completion source cursor explicit config? = .error "Invalid cursor" := by
  rw [completion, complete_of_settings_some source cursor explicit h, hcursor]
  rfl

/-- Between two characters, the answer is the view of what the library says there. -/
theorem completion_of_complete {source : String} {explicit : Bool} {before after : List Char}
    {found : Option Completion} (h : settings? config? = some config)
    (hsource : source.toList = before ++ after)
    (hfound : Completion.complete source (byteLength before) explicit config = .ok found) :
    completion source (unitLength before) explicit config? =
      .ok (found.map (completionView source)) := by
  have hcursor : byteOfUnit? (unitLength before) source.toList = some (byteLength before) := by
    rw [hsource, byteOfUnit?_append]
  rw [completion, complete_of_settings_some source _ explicit h, hcursor]
  dsimp only
  rw [hfound]
  cases found with
  | none => rfl
  | some c => rfl

end Requests

/-- **An editor gets the completion of the library, seen in code units.** Settings that cannot be
read are reported first, whatever the cursor. Otherwise the cursor is reported if and only if no
first part of the source has that many code units. A cursor that has passed is never rejected by the
library at the bytes of that part: where the library offers nothing the editor gets nothing, and
where it offers something the editor gets a view that shows it. -/
theorem completion_in_units (source : String) (cursor : Nat) (explicit : Bool)
    (config? : Option String) :
    (settings? config? = none →
      completion source cursor explicit config? = .error "Invalid completion config") ∧
    ∀ config, settings? config? = some config →
      (completion source cursor explicit config? = .error "Invalid cursor" ↔
        ¬ ∃ before after, source.toList = before ++ after ∧ unitLength before = cursor) ∧
      ∀ before after, source.toList = before ++ after → unitLength before = cursor →
        ∃ found, Completion.complete source (byteLength before) explicit config = .ok found ∧
          (completion source cursor explicit config? = .ok none ↔ found = none) ∧
          ∀ c ∈ found, ∃ view, completion source cursor explicit config? = .ok (some view) ∧
            Shows source cursor (byteLength before) c view := by
  refine ⟨completion_of_settings_none source cursor explicit, ?_⟩
  intro config hconfig
  refine ⟨⟨?_, ?_⟩, ?_⟩
  · rintro herror ⟨before, after, hsource, rfl⟩
    obtain ⟨found, hfound⟩ := Completion.exists_complete_eq_ok hsource explicit config
    rw [completion_of_complete hconfig hsource hfound] at herror
    cases herror
  · intro hcursor
    apply completion_of_byteOfUnit?_none source cursor explicit hconfig
    rw [Option.eq_none_iff_forall_ne_some]
    intro offset hoffset
    obtain ⟨before, after, hsource, hunits, -⟩ := byteOfUnit?_eq_some_iff.mp hoffset
    exact hcursor ⟨before, after, hsource, hunits⟩
  · rintro before after hsource rfl
    obtain ⟨found, hfound⟩ := Completion.exists_complete_eq_ok hsource explicit config
    rw [completion_of_complete hconfig hsource hfound]
    refine ⟨found, hfound, ?_, ?_⟩
    · rw [Except.ok.injEq, Option.map_eq_none_iff]
    · rintro c rfl
      exact ⟨_, rfl, shows_completionView hsource hfound⟩

/-- Behind a character of two code units and four bytes, the name of a variable is completed from
its sigil on; between the two units of that character, no cursor can be. -/
theorem completion_in_units_wide :
    (∃ c view, Completion.complete "\"😀\" $a $" 11 false ⟨3⟩ = .ok (some c) ∧
      completion "\"😀\" $a $" 9 false (some "[3]") = .ok (some view) ∧
      Shows "\"😀\" $a $" 9 11 c view ∧ c.anchor = 10 ∧ view.anchor = 8) ∧
    completion "\"😀\" $a $" 2 false (some "[3]") = .error "Invalid cursor" ∧
    completion "\"😀\" $a $" 2 false (some "[3") = .error "Invalid completion config" := by
  have htree : (Document.read "\"😀\" $a $").tree = ⟨0, .program, ⟨0, 11⟩,
      [⟨1, .string, ⟨0, 6⟩, []⟩, ⟨2, .variable, ⟨7, 9⟩, []⟩, ⟨3, .variable, ⟨10, 11⟩, []⟩]⟩ := rfl
  have hcomplete : Completion.complete "\"😀\" $a $" 11 false ⟨3⟩ =
      .ok (some ⟨.variableReference, 10, [⟨"$a", .variable, none⟩]⟩) := by
    unfold Completion.complete
    rw [htree]
    rfl
  have hsettings : settings? (some "[3]") = some ⟨3⟩ := rfl
  have hinside :
      ¬ ∃ before after, "\"😀\" $a $".toList = before ++ after ∧ unitLength before = 2 := by
    rintro ⟨before, after, hsource, hunits⟩
    have hbyte := byteOfUnit?_append before after
    rw [← hsource, hunits] at hbyte
    cases hbyte
  refine ⟨?_, ?_, ?_⟩
  · obtain ⟨found, hfound, -, hshows⟩ :=
      ((completion_in_units "\"😀\" $a $" 9 false (some "[3]")).2 _ hsettings).2
        "\"😀\" $a $".toList [] rfl rfl
    obtain rfl := Except.ok.inj (hcomplete.symm.trans hfound)
    obtain ⟨view, hview, hshown⟩ := hshows _ rfl
    have hle := hshown.anchor_le
    have hdistance : 9 - view.anchor = 11 - 10 := hshown.distance
    exact ⟨_, view, hcomplete, hview, hshown, rfl, by omega⟩
  · exact (((completion_in_units _ 2 false _).2 _ hsettings).1).mpr hinside
  · exact (completion_in_units _ 2 false _).1 rfl

end Editor

end GolfAssist
