import Formulary.Stored
import Formulary.Proofs.JsonText

/-!
# Settings that are stored

Settings can be chosen and they can be stored, and whoever reads them again chooses them again: they
are checked as if they had never been stored. So all settings that anyone holds can be used, as long
as nobody puts them together by hand.

* `Settings.Change` — what gives other settings, and `Change.wanted?` — which ones it asks for;
* `Settings.Obtained` — settings that come from such changes; `obtained_iff` — these are the ones
  that can be used;
* `Settings.verdict` — what the check makes of settings; `ofStored_text` — it is what their text
  gives;
* `Settings.completed` — the members of an object after the missing fields have been added and
  everything else has been left out; `ofJson?_completed` — they are read as the same settings;
* `Settings.check_decides` — all of this together.
-/

namespace Formulary

namespace Settings

/-! ## Changes -/

/-- The settings that a text holds, usable or not. -/
def inText? (text : String) : Option Settings :=
  (Json.read? text).bind fun (value, _) => ofJson? value

/-- What gives other settings. -/
inductive Change
  /-- another name, with the usual bounds -/
  | named (name : String)
  /-- another bound on nesting -/
  | nesting (bound : Nat)
  /-- another bound on the height of the tree -/
  | depth (bound : Nat)
  /-- a text in which settings are stored -/
  | stored (text : String)

namespace Change

/-- The settings that a change asks for, usable or not. A text may hold none. -/
def wanted? (s : Settings) : Change → Option Settings
  | named name => some { variableName := name }
  | nesting bound => some { s with maxNesting := bound }
  | depth bound => some { s with maxDepth := bound }
  | stored text => inText? text

/-- What comes of a change. -/
def apply (s : Settings) : Change → Except StoredError Settings
  | named name => (ofName name).mapError .refused
  | nesting bound => (s.withNesting bound).mapError .refused
  | depth bound => (s.withDepth bound).mapError .refused
  | stored text => ofStored text

end Change

/-- The settings that come from changes, the usual ones being there from the beginning. -/
inductive Obtained : Settings → Prop
  | usual : Obtained {}
  | change {s t : Settings} (c : Change) (h : Obtained s) (ht : c.apply s = .ok t) : Obtained t

/-! ## The verdict of the check -/

/-- What the check makes of settings. -/
def verdict (s : Settings) : Except StoredError Settings :=
  match s.check with
  | .ok () => .ok s
  | .error e => .error (.refused e)

theorem verdict_eq_ok_iff {s t : Settings} : s.verdict = .ok t ↔ s.check = .ok () ∧ s = t := by
  rw [verdict]
  rcases s.check with e | ⟨⟩ <;> simp

theorem verdict_eq_refused_iff {s : Settings} {e : SettingsError} :
    s.verdict = .error (.refused e) ↔ s.check = .error e := by
  rw [verdict]
  rcases s.check with e | ⟨⟩ <;> simp

theorem mapError_checked (s : Settings) : s.checked.mapError .refused = s.verdict := by
  rw [checked, verdict]
  rcases s.check with e | ⟨⟩ <;> rfl

section

variable {text : String} {value : Json} {s : Settings}

/-- A text that holds nothing but settings gives the verdict on them. -/
theorem ofStored_of_read? (htext : Json.read? text = some (value, []))
    (hvalue : ofJson? value = some s) : ofStored text = s.verdict := by
  simp only [ofStored, htext, hvalue, verdict]
  rcases s.check with e | ⟨⟩ <;> rfl

theorem ofStored_of_inText?_none (h : inText? text = none) : ofStored text = .error .malformed := by
  rw [inText?] at h
  rw [ofStored]
  rcases htext : Json.read? text with _ | ⟨value, rest⟩
  · rfl
  · rw [htext] at h
    simp only [show ofJson? value = none from h]

/-- A text with settings gives the verdict on them. Only behind settings that can be used there may
be something that makes the text no good. -/
theorem ofStored_of_inText?_some (h : inText? text = some s) :
    ofStored text = s.verdict ∨ s.check = .ok () ∧ ofStored text = .error .malformed := by
  rw [inText?] at h
  rw [ofStored, verdict]
  rcases htext : Json.read? text with _ | ⟨value, rest⟩
  · rw [htext] at h
    cases h
  · rw [htext] at h
    simp only [show ofJson? value = some s from h]
    rcases s.check with e | ⟨⟩
    · exact .inl rfl
    · cases rest with
      | nil => exact .inl rfl
      | cons => exact .inr ⟨rfl, rfl⟩

end

/-! ## Changes are checked -/

namespace Change

/-- **A change is refused** exactly if the settings it asks for cannot be used, and for their
reason. -/
theorem apply_eq_refused_iff {s : Settings} {c : Change} {e : SettingsError} :
    c.apply s = .error (.refused e) ↔
      ∃ wanted, c.wanted? s = some wanted ∧ wanted.check = .error e := by
  cases c with
  | named | nesting | depth =>
    simp only [apply, ofName, withNesting, withDepth, mapError_checked, verdict_eq_refused_iff,
      wanted?, Option.some.injEq, exists_eq_left']
  | stored text =>
    rw [apply, wanted?]
    rcases htext : inText? text with _ | held
    · simp [ofStored_of_inText?_none htext]
    · simp only [Option.some.injEq, exists_eq_left', ← verdict_eq_refused_iff]
      rcases ofStored_of_inText?_some htext with hverdict | ⟨hcheck, hmalformed⟩
      · rw [hverdict]
      · simp [hmalformed, verdict, hcheck]

/-- Settings that come from a change can be used. -/
theorem check_of_apply {s t : Settings} {c : Change} (h : c.apply s = .ok t) :
    t.check = .ok () := by
  cases c with
  | named | nesting | depth =>
    obtain ⟨hcheck, rfl⟩ := verdict_eq_ok_iff.mp ((mapError_checked _).symm.trans h)
    exact hcheck
  | stored text =>
    rw [apply] at h
    rcases htext : inText? text with _ | held
    · rw [ofStored_of_inText?_none htext] at h
      cases h
    · rcases ofStored_of_inText?_some htext with hverdict | ⟨-, hmalformed⟩
      · obtain ⟨hcheck, rfl⟩ := verdict_eq_ok_iff.mp (hverdict.symm.trans h)
        exact hcheck
      · rw [hmalformed] at h
        cases h

end Change

/-- **The settings that come from changes** are those that can be used. -/
theorem obtained_iff {s : Settings} : Obtained s ↔ s.check = .ok () := by
  constructor
  · intro h
    cases h with
    | usual => exact check_default
    | change c _ ht => exact Change.check_of_apply ht
  · intro h
    obtain ⟨hne, halpha, hreserved, hnesting, -⟩ := check_eq_ok_iff.mp h
    have husable (t : Settings) (ht : t.check = .ok ()) :
        t.checked.mapError StoredError.refused = .ok t :=
      (mapError_checked t).trans (verdict_eq_ok_iff.mpr ⟨ht, rfl⟩)
    -- First the name, which brings the usual bounds with it, then one bound after the other.
    have hname : Obtained { variableName := s.variableName } :=
      .change (.named s.variableName) .usual
        (husable _ (check_eq_ok_iff.mpr ⟨hne, halpha, hreserved, Nat.succ_pos _, Nat.succ_pos _⟩))
    have hbound : Obtained { variableName := s.variableName, maxNesting := s.maxNesting } :=
      .change (.nesting s.maxNesting) hname
        (husable _ (check_eq_ok_iff.mpr ⟨hne, halpha, hreserved, hnesting, Nat.succ_pos _⟩))
    exact .change (.depth s.maxDepth) hbound (husable s h)

/-! ## The stored form -/

theorem plain_toJson (s : Settings) : s.toJson.Plain := by
  refine .object ?_ ?_ <;> simp only [List.map_cons, List.map_nil, List.forall_mem_cons]
  · exact ⟨rfl, rfl, rfl, nofun⟩
  · exact ⟨.string _, .integer _, .integer _, nofun⟩

theorem count?_toNat (n : UInt64) : Json.count? (.integer n.toNat) = some n.toNat := by
  have hn : n.toNat < 0x10000000000000000 := n.toNat_lt
  rw [Json.count?, if_pos (by omega), Int.toNat_natCast]

/-- Fields that can be read are read. -/
theorem ofJson?_ofMembers {name nesting depth : Json} {text : String} {n d : Nat}
    (hname : name.text? = some text) (hnesting : nesting.count? = some n)
    (hdepth : depth.count? = some d) :
    ofJson? (.ofMembers [("variable_name", name), ("max_depth", nesting),
      ("max_tree_depth", depth)]) = some ⟨text, n, d⟩ := by
  have hfields : ofJson? (.ofMembers [("variable_name", name), ("max_depth", nesting),
      ("max_tree_depth", depth)]) = ofFields? (some name) (some nesting) (some depth) := rfl
  simp [hfields, ofFields?, hname, hnesting, hdepth]

/-- **Settings that are stored** come back if they can be used, and otherwise their text is refused
for the same reason. -/
theorem ofStored_text (name : String) (nesting depth : UInt64) :
    ofStored (toJson ⟨name, nesting.toNat, depth.toNat⟩).text =
      verdict ⟨name, nesting.toNat, depth.toNat⟩ :=
  ofStored_of_read? (Json.read?_text (plain_toJson _))
    (ofJson?_ofMembers rfl (count?_toNat nesting) (count?_toNat depth))

/-! ## Fields that are missing and members that are no fields -/

/-- The names of the fields. -/
def fieldNames : List String := ["variable_name", "max_depth", "max_tree_depth"]

/-- The members with a name. -/
def membersNamed (name : String) (members : List (Option String × Json)) :
    List (Option String × Json) :=
  members.filter fun m => m.1 = some name

/-- The members of the stored form of the usual settings. -/
def usualMembers : List (Option String × Json) :=
  match toJson {} with
  | .object members => members
  | _ => []

/-- The members of an object without those that are no fields, and with the usual values of the
fields that are missing. -/
def completed (members : List (Option String × Json)) : List (Option String × Json) :=
  members.filter (fun m => m.1.all (· ∈ fieldNames)) ++
    usualMembers.filter fun m => m.1.any fun name => (membersNamed name members).isEmpty

section

variable {name : String} {members : List (Option String × Json)}

/-- A field is as it is, or as usual if it is missing. -/
theorem membersNamed_completed (hname : name ∈ fieldNames) :
    membersNamed name (completed members) = membersNamed name members ++
      if (membersNamed name members).isEmpty then membersNamed name usualMembers else [] := by
  rw [completed, membersNamed, List.filter_append, List.filter_filter, List.filter_filter]
  congr 1
  · refine List.filter_congr fun m _ => ?_
    by_cases h : m.1 = some name
    · simp [h, hname]
    · simp [h]
  · split
    · next hmissing =>
      refine List.filter_congr fun m _ => ?_
      by_cases h : m.1 = some name
      · simp [h, hmissing]
      · simp [h]
    · next hthere =>
      refine List.filter_eq_nil_iff.mpr fun m _ => ?_
      by_cases h : m.1 = some name
      · simp [h, hthere]
      · simp [h]

theorem member?_completed (name : String) {usual : Json} (hname : name ∈ fieldNames)
    (husual : membersNamed name usualMembers = [(some name, usual)]) :
    Json.member? (completed members) name =
      (Json.member? members name).map fun found? => some (found?.getD usual) := by
  have hcompleted : membersNamed name (completed members) = _ := membersNamed_completed hname
  rw [husual, membersNamed, membersNamed] at hcompleted
  rw [Json.member?, Json.member?, hcompleted]
  -- There may be none, one or more than one.
  generalize members.filter (fun m => m.1 = some name) = found
  rcases found with _ | ⟨m, _ | ⟨next, more⟩⟩ <;> rfl

end

theorem all_isSome_completed (members : List (Option String × Json)) :
    ((completed members).all fun m => m.1.isSome) = members.all fun m => m.1.isSome := by
  have husual : ∀ m ∈ usualMembers, m.1.isSome = true := by
    simp [usualMembers, toJson, Json.ofMembers]
  have hadded : ∀ p : Option String × Json → Bool,
      ((usualMembers.filter p).all fun m => m.1.isSome) = true := fun p =>
    List.all_eq_true.mpr fun m hm => husual m (List.mem_filter.mp hm).1
  rw [completed, List.all_append, List.all_filter, hadded, Bool.and_true]
  refine congrArg members.all (funext fun m => ?_)
  rcases m with ⟨_ | name, value⟩
  · rfl
  · simp

theorem ofFields?_getD (name? nesting? depth? : Option Json) :
    ofFields? (some (name?.getD (.ofString ({} : Settings).variableName)))
      (some (nesting?.getD (.integer ({} : Settings).maxNesting)))
      (some (depth?.getD (.integer ({} : Settings).maxDepth))) =
        ofFields? name? nesting? depth? := by
  cases name? <;> cases nesting? <;> cases depth? <;> rfl

/-- **An object is read as if** it had been completed. -/
theorem ofJson?_completed (members : List (Option String × Json)) :
    ofJson? (.object (completed members)) = ofJson? (.object members) := by
  rw [ofJson?, ofJson?, all_isSome_completed, member?_completed "variable_name" (by decide) rfl,
    member?_completed "max_depth" (by decide) rfl,
    member?_completed "max_tree_depth" (by decide) rfl]
  rcases Json.member? members "variable_name" with _ | name?
  · rfl
  rcases Json.member? members "max_depth" with _ | nesting?
  · rfl
  rcases Json.member? members "max_tree_depth" with _ | depth?
  · rfl
  exact congrArg (Option.bind _) (funext fun _ => ofFields?_getD name? nesting? depth?)

/-- **The check decides** on all settings, chosen or stored. Those that come from changes are those
that pass; a change is refused for the reason that the check finds; the text of settings gives them
back if they pass, and is refused for that reason if not; and an object in a text is read as if the
missing fields stood there and nothing but fields. -/
theorem check_decides :
    (∀ s : Settings, Obtained s ↔ s.check = .ok ()) ∧
    (∀ (s : Settings) (c : Change) (e : SettingsError), c.apply s = .error (.refused e) ↔
      ∃ wanted, c.wanted? s = some wanted ∧ wanted.check = .error e) ∧
    (∀ (name : String) (nesting depth : UInt64),
      ofStored (toJson ⟨name, nesting.toNat, depth.toNat⟩).text =
        verdict ⟨name, nesting.toNat, depth.toNat⟩) ∧
    ∀ (text text' : String) (members : List (Option String × Json)) (rest : List JsonSymbol),
      Json.read? text = some (.object members, rest) →
      Json.read? text' = some (.object (completed members), rest) →
        ofStored text' = ofStored text := by
  refine ⟨fun _ => obtained_iff, fun _ _ _ => Change.apply_eq_refused_iff, ofStored_text, ?_⟩
  intro text text' members rest htext htext'
  simp only [ofStored, htext, htext', ofJson?_completed]

/-- A text with a member that is no field, and without fields. -/
theorem check_decides_theme :
    ofStored (Json.ofMembers [("theme", .ofString "dark")]).text = .ok {} := by
  obtain ⟨-, -, hstored, hobject⟩ := check_decides
  have hplain : (Json.ofMembers [("theme", .ofString "dark")]).Plain :=
    .object (by simp) (by simpa using .string "dark")
  have hread := hobject _ _ _ _ (Json.read?_text hplain) (Json.read?_text (plain_toJson {}))
  exact hread.symm.trans (hstored "x" 100 1000)

end Settings

end Formulary
