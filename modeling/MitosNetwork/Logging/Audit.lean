import MitosNetwork.Common.Text

/-!
# The audit log

`src/logging/audit.rs`. Every record is appended to the file as one line. The line is read back with
its first fields as words, so a record comes back as it was written if and only if its detail holds
no newline (`forall_parse_fileAfter_iff`).
-/

namespace MitosNetwork.Audit

/-- What is passed to `record`. -/
structure Record where
  actor : String
  action : String
  detail : String
deriving DecidableEq

/-- The text that `record` appends, with the seconds since the epoch. -/
def line (ts : ℕ) (r : Record) : String :=
  toString ts ++ " actor=" ++ r.actor ++ " action=" ++ r.action ++ " detail=" ++ r.detail ++ "\n"

def fileAfter (stamped : List (ℕ × Record)) : String :=
  stamped.foldl (fun file p => file ++ line p.1 p.2) ""

/-! ## Reading -/

def word? (label : String) (cs : List Char) : Option (List Char × List Char) :=
  (Text.stripPrefix? label.toList cs).bind (Text.splitOnce ' ')

/-- A line of the form `<ts> actor=<actor> action=<action> detail=<detail>`. -/
def parseLine (cs : List Char) : Option Record := do
  let (ts, rest) ← word? "" cs
  let (actor, rest) ← word? "actor=" rest
  let (action, rest) ← word? "action=" rest
  let detail ← Text.stripPrefix? "detail=".toList rest
  if ts ≠ [] ∧ ts.all Text.isAsciiDigit then
    some ⟨String.ofList actor, String.ofList action, String.ofList detail⟩
  else none

def parse (file : String) : List (Option Record) := (Lines.split '\n' file.toList).map parseLine

/-! ## Round trip -/

/-- The text holds no blank and no newline. -/
def IsWord (s : String) : Prop := ∀ c ∈ s.toList, c ≠ ' ' ∧ c ≠ '\n'

instance (s : String) : Decidable (IsWord s) :=
  List.decidableBAll (fun c => c ≠ ' ' ∧ c ≠ '\n') s.toList

def Record.IsTagged (r : Record) : Prop := IsWord r.actor ∧ IsWord r.action

/-- The line without the newline at its end. -/
def body (p : ℕ × Record) : List Char :=
  (toString p.1).toList ++ ' ' :: ("actor=".toList ++ (p.2.actor.toList ++ ' ' ::
    ("action=".toList ++ (p.2.action.toList ++ ' ' :: ("detail=".toList ++ p.2.detail.toList)))))

theorem toList_line (p : ℕ × Record) : (line p.1 p.2).toList = body p ++ ['\n'] := by
  have hac : " actor=".toList = ' ' :: "actor=".toList :=
    String.toList_ofList.trans (congrArg (' ' :: ·) String.toList_ofList.symm)
  have hact : " action=".toList = ' ' :: "action=".toList :=
    String.toList_ofList.trans (congrArg (' ' :: ·) String.toList_ofList.symm)
  have hdet : " detail=".toList = ' ' :: "detail=".toList :=
    String.toList_ofList.trans (congrArg (' ' :: ·) String.toList_ofList.symm)
  have hend : "\n".toList = ['\n'] := rfl
  simp only [line, body, String.toList_append, hac, hact, hdet, hend, List.append_assoc,
    List.cons_append]

theorem toList_fileAfter (stamped : List (ℕ × Record)) :
    (fileAfter stamped).toList = Lines.file '\n' (stamped.map body) := by
  have hfold : ∀ text : String, (stamped.foldl (fun file p => file ++ line p.1 p.2) text).toList =
      text.toList ++ Lines.file '\n' (stamped.map body) := by
    induction stamped with
    | nil => exact fun text => (List.append_nil _).symm
    | cons p stamped ih =>
      intro text
      rw [List.foldl_cons, ih, String.toList_append, toList_line, List.append_assoc]
      rfl
  exact hfold ""

theorem word?_append (label : String) {word : List Char} (h : ' ' ∉ word) (rest : List Char) :
    word? label (label.toList ++ (word ++ ' ' :: rest)) = some (word, rest) := by
  rw [word?, Text.stripPrefix?_append, Option.bind_some, Text.splitOnce_append h]

theorem isAsciiDigit_of_mem_toString {n : ℕ} {c : Char} (hc : c ∈ (toString n).toList) :
    Text.isAsciiDigit c = true := by
  rw [Nat.toString_eq_ofList_toDigits, String.toList_ofList] at hc
  exact Nat.isDigit_of_mem_toDigits (by decide) (by decide) hc

theorem toList_toString_ne_nil (n : ℕ) : (toString n).toList ≠ [] := by
  rw [ne_eq, String.toList_eq_nil_iff]
  exact Nat.repr_ne_empty

theorem notMem_toString {c : Char} (hc : Text.isAsciiDigit c = false) (n : ℕ) :
    c ∉ (toString n).toList := fun hmem =>
  Bool.false_ne_true (hc.symm.trans (isAsciiDigit_of_mem_toString hmem))

theorem parseLine_body {p : ℕ × Record} (h : p.2.IsTagged) : parseLine (body p) = some p.2 := by
  have hts : ∀ rest, word? "" ((toString p.1).toList ++ ' ' :: rest) =
      some ((toString p.1).toList, rest) := by
    intro rest
    have hword := word?_append "" (notMem_toString rfl p.1) rest
    rwa [String.toList_empty] at hword
  have hac := word?_append "actor=" fun hmem => (h.1 ' ' hmem).1 rfl
  have hact := word?_append "action=" fun hmem => (h.2 ' ' hmem).1 rfl
  have hdig : (toString p.1).toList ≠ [] ∧ (toString p.1).toList.all Text.isAsciiDigit :=
    ⟨toList_toString_ne_nil p.1, List.all_eq_true.mpr fun _ => isAsciiDigit_of_mem_toString⟩
  simp only [parseLine, body, hts, hac, hact, Text.stripPrefix?_append, Option.bind_eq_bind,
    Option.bind_some, if_pos hdig, String.ofList_toList]

theorem newline_notMem_body_iff {p : ℕ × Record} (h : p.2.IsTagged) :
    '\n' ∉ body p ↔ '\n' ∉ p.2.detail.toList := by
  have hts : '\n' ∉ (toString p.1).toList := notMem_toString rfl p.1
  have hac : '\n' ∉ p.2.actor.toList := fun hmem => (h.1 '\n' hmem).2 rfl
  have hact : '\n' ∉ p.2.action.toList := fun hmem => (h.2 '\n' hmem).2 rfl
  have hlab : '\n' ∉ "actor=".toList ∧ '\n' ∉ "action=".toList ∧ '\n' ∉ "detail=".toList := by
    decide
  have hbl : '\n' ≠ ' ' := by decide
  simp only [body, List.mem_append, List.mem_cons, hts, hac, hact, hlab, hbl, false_or]

theorem forall_parse_fileAfter_iff {records : List Record} (h : ∀ r ∈ records, r.IsTagged) :
    (∀ stamped : List (ℕ × Record), stamped.map (·.2) = records →
      parse (fileAfter stamped) = records.map some) ↔
    ∀ r ∈ records, '\n' ∉ r.detail.toList := by
  have hstamped : ∀ stamped : List (ℕ × Record), stamped.map (·.2) = records →
      (parse (fileAfter stamped) = records.map some ↔ ∀ r ∈ records, '\n' ∉ r.detail.toList) := by
    rintro stamped rfl
    rw [List.forall_mem_map] at h ⊢
    rw [List.map_map]
    rw [parse, toList_fileAfter]
    refine Iff.trans (Lines.map_split_file_iff fun p hp _ => parseLine_body (h p hp)) ?_
    exact forall₂_congr fun p hp => newline_notMem_body_iff (h p hp)
  constructor
  · intro hparse
    have htimes : (records.map fun r => (0, r)).map (·.2) = records := by
      rw [List.map_map]
      exact List.map_id' records
    exact (hstamped _ htimes).mp (hparse _ htimes)
  · exact fun hls stamped hrec => (hstamped stamped hrec).mpr hls

end MitosNetwork.Audit
