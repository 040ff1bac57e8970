import Formulary.Proofs.Trace.History

/-!
# What the lines say

A line of the trace is a number, a level, a category and a message with bars between them, and in a
file a line ends with a line break. So a file is taken apart at its line breaks, and a line at its
first three bars.

* `Entry` — an event with its number; `numbered` — events with the numbers that they get;
* `Trace.records_writeAll`, `Trace.text?_writeAll` — what goes to those who listen and to a file;
* `Entry.ofLine?`, `entries?` — what a line says, and what a file says;
* `ReadsBack` — a file says what has been written; `readsBack_iff` — it does if no message holds a
  line break, and only then.
-/

namespace Formulary

/-- An event with its number. -/
structure Entry where
  /-- the number -/
  number : Nat
  /-- what happened -/
  event : Event
  deriving DecidableEq

namespace Entry

/-- The line that is written. -/
def line (e : Entry) : String := e.event.line e.number

/-- The line as it goes to those who listen. -/
def record (e : Entry) : Record := ⟨e.event.category, .ofLevel e.event.level, e.line⟩

end Entry

/-- Events with the numbers from the given one on. -/
def numbered (first : Nat) : List Event → List Entry
  | [] => []
  | e :: events => ⟨first, e⟩ :: numbered (first + 1) events

/-- Entries as a text, each line of them ended. -/
def entriesText (entries : List Entry) : String := String.join (entries.map (·.line ++ "\n"))

theorem map_event_numbered (first : Nat) (events : List Event) :
    (numbered first events).map Entry.event = events := by
  induction events generalizing first with
  | nil => rfl
  | cons e events ih => rw [numbered, List.map_cons, ih]

/-- Numbers change nothing about events. -/
theorem forall_mem_numbered {P : Event → Prop} {first : Nat} {events : List Event} :
    (∀ e ∈ numbered first events, P e.event) ↔ ∀ e ∈ events, P e := by
  rw [← List.forall_mem_map (P := P), map_event_numbered]

/-- The numbers go up one by one. -/
theorem map_number_numbered (first : Nat) (events : List Event) :
    (numbered first events).map Entry.number = List.range' first events.length := by
  induction events generalizing first with
  | nil => rfl
  | cons e events ih => rw [numbered, List.map_cons, ih, List.length_cons, List.range'_succ]

/-! ## Writing -/

namespace Trace

theorem writeAll_append (t : Trace) (events more : List Event) :
    t.writeAll (events ++ more) = (t.writeAll events).writeAll more := List.foldl_append

theorem attached_writeAll (t : Trace) (events : List Event) :
    (t.writeAll events).attached = t.attached := by
  induction events generalizing t with
  | nil => rfl
  | cons e events ih => exact ih (t.write e)

/-- **Those who listen get every event** as a line of its own, with the next number. -/
theorem records_writeAll (t : Trace) (events : List Event) :
    (t.writeAll events).records =
      t.records ++ (numbered (t.count + 1) events).map Entry.record := by
  induction events generalizing t with
  | nil => exact (List.append_nil _).symm
  | cons e events ih =>
    have hlater := ih (t.write e)
    rw [write_records, write_count, List.append_assoc] at hlater
    exact hlater

/-- **The file that is attached gets the same lines**, each of them ended. -/
theorem text?_writeAll {t : Trace} {file : Path} {text : String}
    (hattached : t.attached = some file) (htext : t.files.text? file = some text)
    (events : List Event) :
    (t.writeAll events).files.text? file =
      some (text ++ entriesText (numbered (t.count + 1) events)) := by
  induction events generalizing t text with
  | nil =>
    rw [numbered, entriesText, List.map_nil, String.join_nil, String.append_empty]
    exact htext
  | cons e events ih =>
    have hlater := ih (t := t.write e) hattached (text?_write_of_attached hattached htext e)
    rw [numbered, entriesText, List.map_cons, String.join_cons, ← String.append_assoc]
    exact hlater

end Trace

/-! ## Reading -/

/-- What a line says: the text in front of the first bar is the number, and what comes after the
third one is the message, whatever it holds. -/
def Entry.ofLine? (line : String) : Option Entry :=
  match lineNumber? line, line.toList.splitOn '|' with
  | some number, _ :: level :: category :: first :: more =>
    some ⟨number, .ofList level, .ofList category, .ofList (['|'].intercalate (first :: more))⟩
  | _, _ => none

/-- What a file says: all that ends with a line break is a line, and there is nothing else. -/
def entries? (text : String) : Option (List Entry) :=
  let pieces := text.toList.splitOn '\n'
  if pieces.getLast? = some [] then (pieces.dropLast.map String.ofList).mapM Entry.ofLine? else none

/-- A file says what has been written. -/
structure ReadsBack (text : String) (entries : List Entry) : Prop where
  /-- between two line breaks there is one entry, and nothing comes after the last one -/
  split : text.toList.splitOn '\n' = entries.map (·.line.toList) ++ [[]]
  /-- the lines say what has been written -/
  read : entries? text = some entries
  /-- the numbers go up -/
  ordered : (entries.map Entry.number).Pairwise (· < ·)

/-- An event whose level and category can be told from what is around them: neither of them holds a
bar or a line break. -/
structure Event.Plain (e : Event) : Prop where
  /-- the level -/
  level : '|' ∉ e.level.toList ∧ '\n' ∉ e.level.toList
  /-- the category -/
  category : '|' ∉ e.category.toList ∧ '\n' ∉ e.category.toList

/-! ### One line -/

namespace Entry

variable {e : Entry}

theorem toList_line (e : Entry) : e.line.toList =
    Nat.toDigits 10 e.number ++ '|' ::
      (e.event.level.toList ++ '|' ::
        (e.event.category.toList ++ '|' :: e.event.message.toList)) := by
  simp [line, Event.line]

theorem notMem_toDigits {c : Char} (hc : c.isDigit = false) (n : Nat) :
    c ∉ Nat.toDigits 10 n := by
  intro hmem
  rw [isDigit_of_mem_toDigits hmem] at hc
  cases hc

/-- **A line says what has been written.** -/
theorem ofLine?_line (h : e.event.Plain) : ofLine? e.line = some e := by
  have hsplit : e.line.toList.splitOn '|' = Nat.toDigits 10 e.number :: e.event.level.toList ::
      e.event.category.toList :: e.event.message.toList.splitOn '|' := by
    rw [toList_line, List.splitOn_append_cons_self_of_not_mem (notMem_toDigits rfl _),
      List.splitOn_append_cons_self_of_not_mem h.level.1,
      List.splitOn_append_cons_self_of_not_mem h.category.1]
  obtain ⟨first, more, hmessage⟩ :=
    List.exists_cons_of_ne_nil (List.splitOn_ne_nil '|' e.event.message.toList)
  have hjoin : ['|'].intercalate (first :: more) = e.event.message.toList := by
    rw [← hmessage, List.intercalate_splitOn]
  rw [ofLine?, hsplit, hmessage, line, lineNumber?_line]
  simp only [hjoin, String.ofList_toList]

/-- A line holds a line break exactly if its message does. -/
theorem lineBreak_mem_line (h : e.event.Plain) :
    '\n' ∈ e.line.toList ↔ '\n' ∈ e.event.message.toList := by
  have hbar : '\n' ≠ '|' := by decide
  simp [toList_line, notMem_toDigits, h.level.2, h.category.2]

end Entry

/-! ### Many lines -/

/-- Lines without line breaks are found again where they end. -/
theorem splitOn_ended {ls : List (List Char)} (h : ∀ l ∈ ls, '\n' ∉ l) :
    (ls.flatMap (· ++ ['\n'])).splitOn '\n' = ls ++ [[]] := by
  induction ls with
  | nil => rfl
  | cons l ls ih =>
    obtain ⟨hl, hls⟩ := List.forall_mem_cons.mp h
    rw [List.flatMap_cons, List.append_assoc, List.singleton_append,
      List.splitOn_append_cons_self_of_not_mem hl, ih hls, List.cons_append]

/-- No piece holds what a text is split at. -/
theorem notMem_of_mem_splitOn {text piece : List Char} {c : Char} (h : piece ∈ text.splitOn c) :
    c ∉ piece := by
  induction text generalizing piece with
  | nil =>
    obtain rfl := List.mem_singleton.mp h
    exact List.not_mem_nil
  | cons d text ih =>
    rw [List.splitOn_cons_eq_if_modifyHead] at h
    split at h
    · rcases List.mem_cons.mp h with rfl | h
      · exact List.not_mem_nil
      · exact ih h
    · next hd =>
      obtain ⟨first, more, hpieces⟩ := List.exists_cons_of_ne_nil (List.splitOn_ne_nil c text)
      rw [hpieces] at h ih
      rcases List.mem_cons.mp h with rfl | h
      · rw [beq_iff_eq] at hd
        exact fun hmem => (List.mem_cons.mp hmem).elim (Ne.symm hd) (ih List.mem_cons_self)
      · exact ih (List.mem_cons_of_mem _ h)

theorem toList_entriesText (entries : List Entry) :
    (entriesText entries).toList = (entries.map (·.line.toList)).flatMap (· ++ ['\n']) := by
  simp [entriesText, String.toList_join, List.flatMap_map]

theorem mapM_ofLine?_eq_some {entries : List Entry} (h : ∀ e ∈ entries, e.event.Plain) :
    (entries.map Entry.line).mapM Entry.ofLine? = some entries := by
  induction entries with
  | nil => rfl
  | cons e entries ih =>
    obtain ⟨he, hentries⟩ := List.forall_mem_cons.mp h
    rw [List.map_cons, List.mapM_cons, Entry.ofLine?_line he, ih hentries]
    rfl

/-- **A file says what has been written if no message holds a line break, and only then.** -/
theorem readsBack_iff {first : Nat} {events : List Event} (h : ∀ e ∈ events, e.Plain) :
    ReadsBack (entriesText (numbered first events)) (numbered first events) ↔
      ∀ e ∈ events, '\n' ∉ e.message.toList := by
  have hplain : ∀ e ∈ numbered first events, e.event.Plain := forall_mem_numbered.mpr h
  have hbreaks : (∀ e ∈ events, '\n' ∉ e.message.toList) ↔
      ∀ e ∈ numbered first events, '\n' ∉ e.line.toList := by
    rw [← forall_mem_numbered (P := fun e => '\n' ∉ e.message.toList)]
    exact forall₂_congr fun e he => not_congr (Entry.lineBreak_mem_line (hplain e he)).symm
  rw [hbreaks]
  constructor
  · intro hreads e he
    have hpiece : e.line.toList ∈ (entriesText (numbered first events)).toList.splitOn '\n' := by
      rw [hreads.split]
      exact List.mem_append_left _ (List.mem_map_of_mem he)
    exact notMem_of_mem_splitOn hpiece
  · intro hnone
    have hsplit := splitOn_ended (List.forall_mem_map.mpr hnone)
    rw [← toList_entriesText] at hsplit
    have hlines : ((numbered first events).map (·.line.toList)).map String.ofList =
        (numbered first events).map Entry.line := by
      rw [List.map_map]
      exact List.map_congr_left fun e _ => String.ofList_toList
    refine ⟨hsplit, ?_, ?_⟩
    · rw [entries?, hsplit]
      simp only [List.getLast?_concat, if_pos, List.dropLast_concat]
      rw [hlines, mapM_ofLine?_eq_some hplain]
    · rw [map_number_numbered]
      exact List.pairwise_lt_range'

end Formulary
