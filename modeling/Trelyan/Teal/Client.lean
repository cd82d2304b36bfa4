import Mathlib.Data.List.Lex
import Trelyan.Lib.JsonEqual
import Trelyan.Lib.PyText

/-!
# The spec that the typed client embeds

The generated client holds the ARC-56 spec that it was generated from, in
`_APP_SPEC_JSON`.  Two checks compare that copy with the committed spec:
`_client_spec_matches` of `verify_teal_matches_source.py`, and `main` of
`verify_client_matches_arc56.py`.  The first says that it mirrors the second.

They find the copy with different patterns.  The first takes any assignment in
the text, the second only one at the start of a line and with single blanks.

They compare different keys.  The first leaves out the two that the generator
drops and compares whatever else is there.  The second compares seven keys, and
reads a missing one as `null`.
-/

namespace Trelyan.Teal

open Py Py.Str Json

/-! ## Files -/

/-- What is at a path. -/
inductive PathState where
  | absent
  /-- Something that cannot be read: a directory, or a file without permission. -/
  | unreadable
  | file (contents : Bytes)

namespace PathState

/-- `path.exists()`. -/
def isThere : PathState → Bool
  | absent => false
  | _ => true

/-- `path.read_bytes()`. -/
def readBytes : PathState → Except Error Bytes
  | absent => .error (.exception "FileNotFoundError" "No such file or directory")
  | unreadable => .error (.exception "PermissionError" "Permission denied")
  | file contents => .ok contents

/-- The newlines of text mode. -/
def universalNewlines (s : List Char) : List Char :=
  (replaceCrlf '\r' '\n' s).map fun c => if c = '\r' then '\n' else c

/-- `path.read_text(encoding="utf-8")`. -/
def readText (path : PathState) : Except Error (List Char) := do
  let contents ← path.readBytes
  let text ← decodeUtf8 contents
  pure (universalNewlines text)

/-- `path.read_text(encoding="utf-8", errors="replace")`. -/
def readTextReplace (path : PathState) : Except Error (List Char) := do
  let contents ← path.readBytes
  pure (universalNewlines (decodeReplace contents))

theorem readText_encodeUtf8 (s : List Char) :
    (file (encodeUtf8 s)).readText = .ok (universalNewlines s) := by
  unfold readText readBytes
  simp only [bind, Except.bind, decodeUtf8_encodeUtf8]
  rfl

theorem readTextReplace_encodeUtf8 (s : List Char) :
    (file (encodeUtf8 s)).readTextReplace = .ok (universalNewlines s) := by
  unfold readTextReplace readBytes
  simp only [bind, Except.bind, decodeReplace_encodeUtf8]
  rfl

end PathState

/-! ## The two patterns -/

/-- What follows a fixed text. -/
def after (fixed s : List Char) : Option (List Char) :=
  if fixed.isPrefixOf s then some (s.drop fixed.length) else none

/-- What stands in front of the next three quotes. -/
def untilQuotes : List Char → Option (List Char)
  | [] => none
  | '"' :: '"' :: '"' :: _ => some []
  | c :: rest => (untilQuotes rest).map (c :: ·)

/-- `r?"""(.*?)"""`. -/
def literalAt (s : List Char) : Option (List Char) :=
  let s := if s.head? = some 'r' then s.tail else s
  (after ['"', '"', '"'] s).bind untilQuotes

/-- `_APP_SPEC_JSON\s*=\s*r?"""(.*?)"""`. -/
def looseAt (s : List Char) : Option (List Char) := do
  let s ← after "_APP_SPEC_JSON".toList s
  let s ← after ['='] (s.dropWhile Str.isSpace)
  literalAt (s.dropWhile Str.isSpace)

/-- `_APP_SPEC_JSON = r?"""(.*?)"""`. -/
def strictAt (s : List Char) : Option (List Char) := do
  let s ← after "_APP_SPEC_JSON = ".toList s
  literalAt s

/-- `re.search`. -/
def search (pattern : List Char → Option (List Char)) : List Char → Option (List Char)
  | [] => pattern []
  | c :: s => (pattern (c :: s)).or (search pattern s)

/-- `re.search` of a pattern behind `^`, with `re.M`. -/
def searchLines (pattern : List Char → Option (List Char)) (atStart : Bool) :
    List Char → Option (List Char)
  | [] => if atStart then pattern [] else none
  | c :: s => (if atStart then pattern (c :: s) else none).or
      (searchLines pattern (c = '\n') s)

/-! ## `_client_spec_matches` -/

/-- `generator_dropped`. -/
def generatorDropped : List Text := ["compilerInfo", "sourceInfo"].map Text.ofString

/-- `raise AttributeError`. -/
def noAttribute (v : Json) (name : String) : Error :=
  .exception "AttributeError" ("'" ++ v.typeName ++ "' object has no attribute '" ++ name ++ "'")

/-- The receiver of a method that only dictionaries have. -/
def asDict (method : String) : Json → Except Error (List (Text × Json))
  | .dict entries => .ok entries
  | v => .error (noAttribute v method)

/-- `[m.get("name") for m in spec.get("methods", [])]`. -/
def methodNames (spec : List (Text × Json)) : Except Error (List Json) := do
  let methods ← ((getItem? spec (Text.ofString "methods")).getD (.list [])).iter
  methods.mapM fun m => do
    let entries ← asDict "get" m
    pure ((getItem? entries (Text.ofString "name")).getD .null)

/-- `spec.get(key)`. -/
def itemOrNull (spec : List (Text × Json)) (key : Text) : Json := (getItem? spec key).getD .null

/-- The keys at which two specs differ, in order. -/
def differing (embedded committed : List (Text × Json)) : List Text :=
  let keys := (embedded.map Prod.fst ++ committed.map Prod.fst).dedup
  (keys.filter fun key => !equal (itemOrNull embedded key) (itemOrNull committed key)).mergeSort

/-- What `_client_spec_matches` reports. -/
inductive ClientProblem where
  | notFound
  | noBlock
  | invalidJson (e : Error)
  | methodsDiffer (client contract : List Json)
  | differsAt (keys : List Text)

/-- `isinstance(e, json.JSONDecodeError)`. -/
def isJsonDecodeError (e : Error) : Bool := e.className == "JSONDecodeError"

/-- The comparison of the two specs. -/
def compareSpecs (embedded committed : List (Text × Json)) : Except Error (Option ClientProblem) :=
  let embedded := without generatorDropped embedded
  let committed := without generatorDropped committed
  if equal (.dict embedded) (.dict committed) then .ok none
  else do
    let embeddedMethods ← methodNames embedded
    let committedMethods ← methodNames committed
    if !equal (.list embeddedMethods) (.list committedMethods) then
      pure (some (.methodsDiffer embeddedMethods committedMethods))
    else pure (some (.differsAt (differing embedded committed)))

/-- `_client_spec_matches`. -/
def clientSpecMatches (limits : Limits) (client specPath : PathState) :
    Except Error (Option ClientProblem) :=
  if !client.isThere then .ok (some .notFound)
  else do
    let src ← client.readTextReplace
    match search looseAt src with
    | none => pure (some .noBlock)
    | some literal =>
      match loads limits literal with
      | .error e => if isJsonDecodeError e then pure (some (.invalidJson e)) else .error e
      | .ok embedded => do
        let text ← specPath.readText
        let committed ← loads limits text
        let embedded ← asDict "items" embedded
        let committed ← asDict "items" committed
        compareSpecs embedded committed

/-! ## `verify_client_matches_arc56.py` -/

namespace VerifyClient

/-- `material`. -/
def material : List Text :=
  ["byteCode", "methods", "state", "bareActions", "structs", "name", "arcs"].map Text.ofString

/-- `drifted`. -/
def drifted (embedded arc : Json) : Except Error (List Text) := do
  let embedded ← asDict "get" embedded
  let arc ← asDict "get" arc
  pure (material.filter fun key => !equal (itemOrNull embedded key) (itemOrNull arc key))

/-- The two files. -/
def readFiles (limits : Limits) (client arc56 : PathState) : Except Error (List Char × Json) := do
  let clientText ← client.readText
  let arcText ← arc56.readText
  let arc ← loads limits arcText
  pure (clientText, arc)

/-- `main`: the exit code. -/
def main (limits : Limits) (client arc56 : PathState) : Except Error Nat :=
  match readFiles limits client arc56 with
  | .error e => if e.isOSError then .ok 2 else .error e
  | .ok (clientText, arc) =>
    match searchLines strictAt true clientText with
    | none => .ok 2
    | some literal =>
      match loads limits literal with
      | .error e => if isJsonDecodeError e then .ok 2 else .error e
      | .ok embedded => do
        let keys ← drifted embedded arc
        pure (if keys.isEmpty then 0 else 1)

end VerifyClient

/-! ## What the two checks find -/

/-- The literal that `_client_spec_matches` finds in the text of the client. -/
def looseLiteral (client : List Char) : Option (List Char) :=
  search looseAt (PathState.universalNewlines client)

/-- The literal that `main` finds. -/
def strictLiteral (client : List Char) : Option (List Char) :=
  searchLines strictAt true (PathState.universalNewlines client)

theorem after_eq_some {fixed s rest : List Char} :
    after fixed s = some rest ↔ s = fixed ++ rest := by
  unfold after
  split_ifs with h
  · obtain ⟨tail, rfl⟩ := List.isPrefixOf_iff_prefix.mp h
    rw [List.drop_left, Option.some_inj, List.append_cancel_left_eq]
  · refine iff_of_false (fun heq => by cases heq) ?_
    rintro rfl
    exact h (List.isPrefixOf_iff_prefix.mpr (List.prefix_append _ _))

/-- A literal does not begin with white space. -/
theorem dropWhile_of_literalAt {s x : List Char} (h : literalAt s = some x) :
    s.dropWhile Str.isSpace = s := by
  cases s with
  | nil => rfl
  | cons c s =>
    refine List.dropWhile_cons_of_neg fun hspace => ?_
    unfold literalAt at h
    by_cases hr : c = 'r'
    · subst hr
      cases hspace
    · rw [if_neg (by simp [hr])] at h
      obtain ⟨rest, hrest, -⟩ := Option.bind_eq_some_iff.mp h
      obtain ⟨rfl, -⟩ := List.cons.inj (after_eq_some.mp hrest)
      cases hspace

/-- What the second pattern matches, the first matches too. -/
theorem looseAt_of_strictAt {s x : List Char} (h : strictAt s = some x) : looseAt s = some x := by
  obtain ⟨rest, hrest, hliteral⟩ := Option.bind_eq_some_iff.mp h
  rw [after_eq_some] at hrest
  subst hrest
  have hname : after "_APP_SPEC_JSON".toList ("_APP_SPEC_JSON = ".toList ++ rest) =
      some (' ' :: '=' :: ' ' :: rest) := after_eq_some.mpr rfl
  have hequals : (' ' :: '=' :: ' ' :: rest).dropWhile Str.isSpace = '=' :: ' ' :: rest := rfl
  have hsign : after ['='] ('=' :: ' ' :: rest) = some (' ' :: rest) := after_eq_some.mpr rfl
  have hblank : (' ' :: rest).dropWhile Str.isSpace = rest := by
    rw [List.dropWhile_cons_of_pos (by decide), dropWhile_of_literalAt hliteral]
  unfold looseAt
  simp only [hname, hequals, hsign, hblank, bind, Option.bind, hliteral]

theorem search_isSome_of_searchLines {s x : List Char} {atStart : Bool}
    (h : searchLines strictAt atStart s = some x) : (search looseAt s).isSome = true := by
  induction s generalizing atStart with
  | nil =>
    cases atStart with
    | false => cases h
    | true =>
      rw [search, looseAt_of_strictAt h]
      rfl
  | cons c s ih =>
    rw [searchLines] at h
    rw [search, Option.isSome_or, Bool.or_eq_true]
    rcases Option.or_eq_some_iff.mp h with hhere | ⟨-, hlater⟩
    · refine Or.inl ?_
      cases atStart with
      | false => cases hhere
      | true =>
        rw [looseAt_of_strictAt hhere]
        rfl
    · exact Or.inr (ih hlater)

theorem looseLiteral_isSome {client x : List Char} (h : strictLiteral client = some x) :
    ∃ y, looseLiteral client = some y :=
  Option.isSome_iff_exists.mp (search_isSome_of_searchLines h)

/-! ## The two comparisons -/

/-- The specs agree at every key that the generator keeps. -/
def SameSpec (embedded arc : List (Text × Json)) : Prop :=
  ∀ key ∉ generatorDropped, sameItem (getItem? embedded key) (getItem? arc key) = true

/-- The specs agree at the seven keys, where a missing key is `null`. -/
def SameMaterial (embedded arc : List (Text × Json)) : Prop :=
  ∀ key ∈ VerifyClient.material, equal (itemOrNull embedded key) (itemOrNull arc key) = true

theorem equal_without_iff {embedded arc : List (Text × Json)} (he : DistinctKeys embedded)
    (ha : DistinctKeys arc) :
    equal (.dict (without generatorDropped embedded)) (.dict (without generatorDropped arc)) =
        true ↔ SameSpec embedded arc := by
  have hnan : (Json.dict (without generatorDropped embedded)).isNaN = false := rfl
  rw [equal, hnan, Bool.not_false, Bool.and_true,
    same_dict_iff (he.without _) (ha.without _)]
  refine forall_congr' fun key => ?_
  rw [getItem?_without, getItem?_without]
  by_cases hkey : key ∈ generatorDropped
  · simp [hkey, sameItem]
  · simp [hkey]

theorem compareSpecs_eq_none_iff {embedded arc : List (Text × Json)} (he : DistinctKeys embedded)
    (ha : DistinctKeys arc) : compareSpecs embedded arc = .ok none ↔ SameSpec embedded arc := by
  rw [← equal_without_iff he ha]
  unfold compareSpecs
  dsimp only
  split_ifs with h
  · exact iff_of_true rfl h
  · refine iff_of_false (fun hok => ?_) h
    obtain ⟨_, -, hok⟩ := bind_eq_ok.mp hok
    obtain ⟨_, -, hok⟩ := bind_eq_ok.mp hok
    split_ifs at hok <;> cases hok

theorem drifted_isEmpty_iff {embedded arc : List (Text × Json)} :
    VerifyClient.drifted (.dict embedded) (.dict arc) = .ok [] ↔ SameMaterial embedded arc := by
  have hdrifted : VerifyClient.drifted (.dict embedded) (.dict arc) =
      .ok (VerifyClient.material.filter fun key =>
        !equal (itemOrNull embedded key) (itemOrNull arc key)) := rfl
  rw [hdrifted, Except.ok.injEq, List.filter_eq_nil_iff]
  exact forall₂_congr fun key _ => by simp

section Found

variable {limits : Limits}

/-- Both checks succeed only with a literal that holds a dictionary. -/
theorem found_iff {α : Type} {literal : Option (List Char)} {result good : Except Error α}
    {P : List (Text × Json) → Prop} (hnone : literal = none → result ≠ good)
    (herror : ∀ x e, literal = some x → loads limits x = .error e → result ≠ good)
    (hother : ∀ x v, literal = some x → loads limits x = .ok v →
      (∀ embedded, v ≠ .dict embedded) → result ≠ good)
    (hdict : ∀ x embedded, literal = some x → loads limits x = .ok (.dict embedded) →
      (result = good ↔ P embedded)) :
    result = good ↔
      ∃ x embedded, literal = some x ∧ loads limits x = .ok (.dict embedded) ∧ P embedded := by
  constructor
  · intro h
    cases hliteral : literal with
    | none => exact absurd h (hnone hliteral)
    | some x =>
      cases hloads : loads limits x with
      | error e => exact absurd h (herror x e hliteral hloads)
      | ok v =>
        by_cases hv : ∃ embedded, v = .dict embedded
        · obtain ⟨embedded, rfl⟩ := hv
          exact ⟨x, embedded, rfl, hloads, (hdict x embedded hliteral hloads).mp h⟩
        · exact absurd h (hother x v hliteral hloads (not_exists.mp hv))
  · rintro ⟨x, embedded, hliteral, hloads, hP⟩
    exact (hdict x embedded hliteral hloads).mpr hP

theorem asDict_of_ne {v : Json} (h : ∀ entries, v ≠ .dict entries) (method : String) :
    asDict method v = .error (noAttribute v method) := by
  cases v with
  | dict entries => exact absurd rfl (h entries)
  | _ => rfl

variable {client spec : List Char} {arc : List (Text × Json)}

/-- `_client_spec_matches` finds nothing exactly when the literal that it finds is a spec
that agrees with the committed one. -/
theorem clientSpecMatches_eq_none_iff
    (harc : loads limits (PathState.universalNewlines spec) = .ok (.dict arc)) :
    clientSpecMatches limits (.file (encodeUtf8 client)) (.file (encodeUtf8 spec)) = .ok none ↔
      ∃ x embedded, looseLiteral client = some x ∧ loads limits x = .ok (.dict embedded) ∧
        SameSpec embedded arc := by
  unfold clientSpecMatches looseLiteral
  rw [PathState.readTextReplace_encodeUtf8, PathState.readText_encodeUtf8]
  simp only [PathState.isThere, bind, Except.bind, harc]
  apply found_iff
  · intro hnone h
    rw [hnone] at h
    cases h
  · intro x e hx hloads h
    rw [hx] at h
    dsimp only at h
    rw [hloads] at h
    dsimp only at h
    split_ifs at h <;> cases h
  · intro x v hx hloads hv h
    rw [hx] at h
    dsimp only at h
    rw [hloads] at h
    dsimp only at h
    rw [asDict_of_ne hv] at h
    cases h
  · intro x embedded hx hloads
    rw [hx]
    dsimp only
    rw [hloads]
    exact compareSpecs_eq_none_iff (loads_distinctKeys hloads) (loads_distinctKeys harc)

/-- `main` returns 0 exactly when the literal that it finds is a spec that agrees with the
committed one at the seven keys. -/
theorem verifyClient_eq_zero_iff
    (harc : loads limits (PathState.universalNewlines spec) = .ok (.dict arc)) :
    VerifyClient.main limits (.file (encodeUtf8 client)) (.file (encodeUtf8 spec)) = .ok 0 ↔
      ∃ x embedded, strictLiteral client = some x ∧ loads limits x = .ok (.dict embedded) ∧
        SameMaterial embedded arc := by
  have hread : VerifyClient.readFiles limits (.file (encodeUtf8 client))
      (.file (encodeUtf8 spec)) = .ok (PathState.universalNewlines client, .dict arc) := by
    unfold VerifyClient.readFiles
    rw [PathState.readText_encodeUtf8, PathState.readText_encodeUtf8]
    simp only [bind, Except.bind, harc]
    rfl
  unfold VerifyClient.main strictLiteral
  rw [hread]
  dsimp only
  apply found_iff
  · intro hnone h
    rw [hnone] at h
    cases h
  · intro x e hx hloads h
    rw [hx] at h
    dsimp only at h
    rw [hloads] at h
    dsimp only at h
    split_ifs at h
    cases h
  · intro x v hx hloads hv h
    rw [hx] at h
    dsimp only at h
    rw [hloads] at h
    dsimp only at h
    rw [VerifyClient.drifted, asDict_of_ne hv] at h
    cases h
  · intro x embedded hx hloads
    rw [hx]
    dsimp only
    rw [hloads]
    dsimp only
    rw [← drifted_isEmpty_iff]
    cases VerifyClient.drifted (.dict embedded) (.dict arc) with
    | error e => exact iff_of_false (fun h => by cases h) (fun h => by cases h)
    | ok keys =>
      cases keys with
      | nil => exact iff_of_true rfl rfl
      | cons key keys => exact iff_of_false (fun h => by cases h) (fun h => by cases h)

end Found

/-! ## Where they part -/

/-- A value that only the first check looks at differs. -/
def Unseen (embedded arc : List (Text × Json)) (key : Text) : Prop :=
  key ∉ generatorDropped ∧ key ∉ VerifyClient.material ∧
    sameItem (getItem? embedded key) (getItem? arc key) = false

/-- One spec lacks a material key and the other has `null` there. -/
def NullForMissing (embedded arc : List (Text × Json)) (key : Text) : Prop :=
  key ∈ VerifyClient.material ∧
    ((getItem? embedded key = none ∧ getItem? arc key = some .null) ∨
      (getItem? embedded key = some .null ∧ getItem? arc key = none))

/-- The spec has a `NaN` at a material key. -/
def NaNAt (embedded : List (Text × Json)) (key : Text) : Prop :=
  key ∈ VerifyClient.material ∧ (itemOrNull embedded key).isNaN = true

/-- The two comparisons of one spec with the committed one differ. -/
def Parted (embedded arc : List (Text × Json)) : Prop :=
  (SameMaterial embedded arc ∧
      ∃ key, Unseen embedded arc key ∨ NullForMissing embedded arc key) ∨
    (SameSpec embedded arc ∧ ∃ key, NaNAt embedded key)

theorem eq_null_of_same {v : Json} (h : same v .null = true ∨ same .null v = true) : v = .null := by
  cases v with
  | null => rfl
  | _ => rcases h with h | h <;> cases h

theorem material_not_dropped {key : Text} (h : key ∈ VerifyClient.material) :
    key ∉ generatorDropped := by
  revert key
  decide

/-- At one material key. -/
theorem equal_itemOrNull_iff {embedded arc : List (Text × Json)} {key : Text}
    (hkey : key ∈ VerifyClient.material) :
    equal (itemOrNull embedded key) (itemOrNull arc key) = true ↔
      (sameItem (getItem? embedded key) (getItem? arc key) = true ∨
        NullForMissing embedded arc key) ∧ ¬ NaNAt embedded key := by
  have hnan : NaNAt embedded key ↔ (itemOrNull embedded key).isNaN = true := and_iff_right hkey
  rw [equal, Bool.and_eq_true, Bool.not_eq_true', ← Bool.not_eq_true, ← hnan]
  refine and_congr_left fun _ => ?_
  unfold NullForMissing itemOrNull
  rw [and_iff_right hkey]
  cases getItem? embedded key with
  | none =>
    cases getItem? arc key with
    | none => exact iff_of_true rfl (Or.inl rfl)
    | some w =>
      constructor
      · intro h
        have hw : w = .null := eq_null_of_same (Or.inr h)
        rw [hw]
        exact Or.inr (Or.inl ⟨rfl, rfl⟩)
      · rintro (h | ⟨-, h⟩ | ⟨h, -⟩)
        · cases h
        · cases h
          rfl
        · cases h
  | some v =>
    cases getItem? arc key with
    | none =>
      constructor
      · intro h
        have hv : v = .null := eq_null_of_same (Or.inl h)
        rw [hv]
        exact Or.inr (Or.inr ⟨rfl, rfl⟩)
      · rintro (h | ⟨h, -⟩ | ⟨h, -⟩)
        · cases h
        · cases h
        · cases h
          rfl
    | some w => simp [sameItem]

theorem same_iff_not_parted {embedded arc : List (Text × Json)} :
    (SameSpec embedded arc ↔ SameMaterial embedded arc) ↔ ¬ Parted embedded arc := by
  constructor
  · rintro hiff (⟨hmaterial, key, hunseen | ⟨hkey, hnull⟩⟩ | ⟨hspec, key, hkey, hnan⟩)
    · have hsame := hiff.mpr hmaterial key hunseen.1
      rw [hunseen.2.2] at hsame
      cases hsame
    · have hsame := hiff.mpr hmaterial key (material_not_dropped hkey)
      rcases hnull with ⟨he, ha⟩ | ⟨he, ha⟩
      · rw [he, ha] at hsame
        cases hsame
      · rw [he, ha] at hsame
        cases hsame
    · have hequal := hiff.mp hspec key hkey
      exact ((equal_itemOrNull_iff hkey).mp hequal).2 ⟨hkey, hnan⟩
  · intro hparted
    constructor
    · intro hspec key hkey
      rw [equal_itemOrNull_iff hkey]
      refine ⟨Or.inl (hspec key (material_not_dropped hkey)), fun hnan => ?_⟩
      exact hparted (Or.inr ⟨hspec, key, hnan⟩)
    · intro hmaterial key hdropped
      by_cases hkey : key ∈ VerifyClient.material
      · rcases ((equal_itemOrNull_iff hkey).mp (hmaterial key hkey)).1 with hsame | hnull
        · exact hsame
        · exact absurd (Or.inl ⟨hmaterial, key, Or.inr hnull⟩) hparted
      · by_contra hdiffer
        refine hparted (Or.inl ⟨hmaterial, key, Or.inl ⟨hdropped, hkey, ?_⟩⟩)
        simpa using hdiffer

/-! ## Where they agree -/

section Copies

variable (limits : Limits) (client : List Char)

/-- The spec that a literal holds, if it holds a dictionary. -/
def specOf (literal : List Char) : Option (List (Text × Json)) :=
  match loads limits literal with
  | .ok (.dict entries) => some entries
  | _ => none

/-- The copy that `_client_spec_matches` compares. -/
def looseSpec : Option (List (Text × Json)) := (looseLiteral client).bind (specOf limits)

/-- The copy that `main` compares. -/
def strictSpec : Option (List (Text × Json)) := (strictLiteral client).bind (specOf limits)

/-- What a spec has at the seven keys. -/
def materialItems (spec : List (Text × Json)) : List (Option Json) :=
  VerifyClient.material.map (getItem? spec)

/-- The two checks find copies with the same values at the seven keys, or none at all. -/
def SameCopies : Prop :=
  (looseSpec limits client).map materialItems = (strictSpec limits client).map materialItems

/-- The patterns do not lead the checks to different copies, and a copy that they find is not one
on which the comparisons part. -/
structure Aligned (arc : List (Text × Json)) : Prop where
  copies : SameCopies limits client
  together : ∀ embedded, looseSpec limits client = some embedded → ¬ Parted embedded arc

end Copies

section Aligned

variable {limits : Limits} {client spec : List Char} {arc : List (Text × Json)}

theorem specOf_eq_some {literal : List Char} {embedded : List (Text × Json)} :
    specOf limits literal = some embedded ↔ loads limits literal = .ok (.dict embedded) := by
  unfold specOf
  split
  case h_1 entries h => rw [h, Option.some_inj, Except.ok.injEq, Json.dict.injEq]
  case h_2 hother =>
    refine iff_of_false (fun h => by cases h) fun h => ?_
    exact hother embedded h

/-- One literal is one copy, and without a match of the first pattern there is none of the
second. -/
theorem sameCopies_of_literal
    (h : looseLiteral client = none ∨ looseLiteral client = strictLiteral client) :
    SameCopies limits client := by
  unfold SameCopies looseSpec strictSpec
  rcases h with hnone | hsame
  · have hstrict : strictLiteral client = none := by
      cases hstrict : strictLiteral client with
      | none => rfl
      | some y =>
        obtain ⟨x, hx⟩ := looseLiteral_isSome hstrict
        rw [hnone] at hx
        cases hx
    rw [hnone, hstrict]
  · rw [hsame]

theorem SameMaterial.congr {embedded embedded' : List (Text × Json)}
    (hitems : materialItems embedded = materialItems embedded') (h : SameMaterial embedded arc) :
    SameMaterial embedded' arc := by
  intro key hkey
  have hitem := List.map_inj_left.mp hitems key hkey
  have hequal := h key hkey
  unfold itemOrNull at hequal ⊢
  rwa [hitem] at hequal

theorem exists_literal_iff {literal : Option (List Char)} {P : List (Text × Json) → Prop} :
    (∃ x embedded, literal = some x ∧ loads limits x = .ok (.dict embedded) ∧ P embedded) ↔
      ∃ embedded, literal.bind (specOf limits) = some embedded ∧ P embedded := by
  simp only [Option.bind_eq_some_iff, specOf_eq_some]
  constructor
  · rintro ⟨x, embedded, hx, hload, h⟩
    exact ⟨embedded, ⟨x, hx, hload⟩, h⟩
  · rintro ⟨embedded, ⟨x, hx, hload⟩, h⟩
    exact ⟨x, embedded, hx, hload, h⟩

/-- On copies that are the same at the seven keys, the checks agree exactly where the two
comparisons of the first copy do not part. -/
theorem agree_iff_of_sameCopies
    (harc : loads limits (PathState.universalNewlines spec) = .ok (.dict arc))
    (hcopies : SameCopies limits client) :
    (clientSpecMatches limits (.file (encodeUtf8 client)) (.file (encodeUtf8 spec)) = .ok none ↔
      VerifyClient.main limits (.file (encodeUtf8 client)) (.file (encodeUtf8 spec)) = .ok 0) ↔
      ∀ embedded, looseSpec limits client = some embedded → ¬ Parted embedded arc := by
  rw [clientSpecMatches_eq_none_iff harc, verifyClient_eq_zero_iff harc, exists_literal_iff,
    exists_literal_iff]
  show ((∃ embedded, looseSpec limits client = some embedded ∧ SameSpec embedded arc) ↔
    ∃ embedded, strictSpec limits client = some embedded ∧ SameMaterial embedded arc) ↔ _
  unfold SameCopies at hcopies
  cases hloose : looseSpec limits client with
  | none =>
    rw [hloose, Option.map_none, eq_comm, Option.map_eq_none_iff] at hcopies
    rw [hcopies]
    simp
  | some embedded =>
    rw [hloose, Option.map_some, eq_comm, Option.map_eq_some_iff] at hcopies
    obtain ⟨embedded', hstrict, hitems⟩ := hcopies
    have hsecond : (∃ e, strictSpec limits client = some e ∧ SameMaterial e arc) ↔
        SameMaterial embedded arc := by
      rw [hstrict]
      constructor
      · rintro ⟨_, ⟨⟩, h⟩
        exact h.congr hitems
      · intro h
        exact ⟨embedded', rfl, h.congr hitems.symm⟩
    rw [hsecond]
    simp [same_iff_not_parted]

end Aligned

/-- On an aligned client and spec `_client_spec_matches` finds nothing wrong exactly when `main`
returns 0.  As long as the patterns find the same copy, that they are aligned is also
necessary. -/
theorem client_checks_agree (limits : Limits) (client spec : List Char)
    {arc : List (Text × Json)}
    (harc : loads limits (PathState.universalNewlines spec) = .ok (.dict arc)) :
    (Aligned limits client arc →
      (clientSpecMatches limits (.file (encodeUtf8 client)) (.file (encodeUtf8 spec)) =
          .ok none ↔
        VerifyClient.main limits (.file (encodeUtf8 client)) (.file (encodeUtf8 spec)) =
          .ok 0)) ∧
    (SameCopies limits client →
      (clientSpecMatches limits (.file (encodeUtf8 client)) (.file (encodeUtf8 spec)) =
          .ok none ↔
        VerifyClient.main limits (.file (encodeUtf8 client)) (.file (encodeUtf8 spec)) =
          .ok 0) →
      Aligned limits client arc) := by
  refine ⟨fun h => ?_, fun hcopies h => ⟨hcopies, ?_⟩⟩
  · exact (agree_iff_of_sameCopies harc h.copies).mpr h.together
  · exact (agree_iff_of_sameCopies harc hcopies).mp h

/-- A copy with a key that the generator drops, in a client. -/
def sampleCopy : List Char := "\x7b\"name\": \"A\", \"compilerInfo\": 1\x7d".toList

def sampleClient : List Char :=
  "_APP_SPEC_JSON = r\"\"\"".toList ++ sampleCopy ++ "\"\"\"\n".toList

/-- The committed spec. -/
def sampleSpec : List Char := "\x7b\"name\": \"A\"\x7d".toList

/-- Both checks pass a client whose copy differs from the committed spec in a key that the
generator drops. -/
theorem sample_client_checks_agree :
    clientSpecMatches Limits.default (.file (encodeUtf8 sampleClient))
        (.file (encodeUtf8 sampleSpec)) = .ok none ∧
      VerifyClient.main Limits.default (.file (encodeUtf8 sampleClient))
        (.file (encodeUtf8 sampleSpec)) = .ok 0 := by
  have harc : loads Limits.default (PathState.universalNewlines sampleSpec) =
      .ok (.dict [(Text.ofString "name", .str (Text.ofString "A"))]) := rfl
  have hloads : loads Limits.default sampleCopy =
      .ok (.dict [(Text.ofString "name", .str (Text.ofString "A")),
        (Text.ofString "compilerInfo", .int 1)]) := rfl
  have hloose : looseLiteral sampleClient = some sampleCopy := by decide
  have hstrict : strictLiteral sampleClient = some sampleCopy := by decide
  have hmaterial : SameMaterial
      [(Text.ofString "name", .str (Text.ofString "A")), (Text.ofString "compilerInfo", .int 1)]
      [(Text.ofString "name", .str (Text.ofString "A"))] := by
    unfold SameMaterial
    decide
  have hspec : SameSpec
      [(Text.ofString "name", .str (Text.ofString "A")), (Text.ofString "compilerInfo", .int 1)]
      [(Text.ofString "name", .str (Text.ofString "A"))] :=
    (equal_without_iff (loads_distinctKeys hloads) (loads_distinctKeys harc)).mp (by decide)
  have haligned := (client_checks_agree Limits.default sampleClient sampleSpec harc).1
    ⟨sameCopies_of_literal (Or.inr (hloose.trans hstrict.symm)), fun embedded hembedded => by
      rw [looseSpec, hloose, Option.bind_some, specOf_eq_some, hloads] at hembedded
      cases hembedded
      exact same_iff_not_parted.mp (iff_of_true hspec hmaterial)⟩
  have hmain := (verifyClient_eq_zero_iff harc).mpr ⟨_, _, hstrict, hloads, hmaterial⟩
  exact ⟨haligned.mpr hmain, hmain⟩

/-- The embedded spec has one more key, which the second check does not look at. -/
theorem extra_key_unseen :
    clientSpecMatches Limits.default
        (.file (encodeUtf8 "_APP_SPEC_JSON = r\"\"\"\x7b\"networks\": 1\x7d\"\"\"".toList))
        (.file (encodeUtf8 "\x7b\x7d".toList)) ≠ .ok none ∧
      VerifyClient.main Limits.default
        (.file (encodeUtf8 "_APP_SPEC_JSON = r\"\"\"\x7b\"networks\": 1\x7d\"\"\"".toList))
        (.file (encodeUtf8 "\x7b\x7d".toList)) = .ok 0 := by
  have harc : loads Limits.default (PathState.universalNewlines "\x7b\x7d".toList) =
      .ok (.dict []) := rfl
  have hloads : loads Limits.default "\x7b\"networks\": 1\x7d".toList =
      .ok (.dict [(Text.ofString "networks", .int 1)]) := rfl
  have hloose : looseLiteral "_APP_SPEC_JSON = r\"\"\"\x7b\"networks\": 1\x7d\"\"\"".toList =
      some "\x7b\"networks\": 1\x7d".toList := by decide
  have hstrict : strictLiteral "_APP_SPEC_JSON = r\"\"\"\x7b\"networks\": 1\x7d\"\"\"".toList =
      some "\x7b\"networks\": 1\x7d".toList := by decide
  rw [Ne, clientSpecMatches_eq_none_iff harc, verifyClient_eq_zero_iff harc, hloose, hstrict]
  constructor
  · rintro ⟨x, embedded, hx, hload, hsame⟩
    cases hx
    rw [hloads] at hload
    cases hload
    exact absurd (hsame (Text.ofString "networks") (by decide)) (by decide)
  · refine ⟨_, _, rfl, hloads, ?_⟩
    unfold SameMaterial
    decide

end Trelyan.Teal
