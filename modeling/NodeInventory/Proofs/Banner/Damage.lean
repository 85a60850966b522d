import NodeInventory.Command.Process
import NodeInventory.Proofs.Collection.Outcome
import NodeInventory.Proofs.Text.Lossy

/-!
# Damaged output

A program writes bytes, and those of them that are not UTF-8 are read as replacement characters.
Such damage stays on the line on which it stands: a rule reads the same from the output of a run as
from its lines of bytes, each decoded for itself.
-/

namespace NodeInventory

open Banner Command Text Utf8

/-- The lines of bytes of a run, those of standard output first. -/
def Command.Ended.byteLines (ended : Ended) : List (List UInt8) :=
  split isBreakByte ended.stdout ++ split isBreakByte ended.stderr

/-- The output of a run has the line breaks that its bytes have, and no others. -/
theorem Command.Ended.split_output (ended : Ended) :
    split isLineBreak ended.output.stdout.toList =
        (split isBreakByte ended.stdout).map decodeLossy ∧
      split isLineBreak ended.output.stderr.toList =
        (split isBreakByte ended.stderr).map decodeLossy := by
  rw [output, String.toList_ofList, String.toList_ofList]
  exact ⟨split_decodeLossy ended.stdout, split_decodeLossy ended.stderr⟩

theorem Command.Ended.lines_output (ended : Ended) :
    lines ended.output.combined.toList =
      ((ended.byteLines.map decodeLossy).map trim).filter (· ≠ []) := by
  obtain ⟨stdout, stderr⟩ := ended.split_output
  rw [ended.output.lines_combined, lines, lines, stdout, stderr, byteLines, List.map_append,
    List.map_append, List.filter_append]

namespace Banner.Rule

variable (rule : Rule)

/-! ## Lines that are given one by one -/

/-- The first of some lines that a rule accepts, blank ones left out. -/
def pick? (found : List (List Char)) : Option (List Char) :=
  ((found.map trim).filter (· ≠ [])).find? rule.line.accepts

/-- What a rule reads where the lines are given one by one. -/
def extractLines (found : List (List Char)) : Except InventoryError (Option String) :=
  rule.validate.map fun _ => ((rule.pick? found).bind rule.token.capture).map String.ofList

theorem pick?_append (first later : List (List Char)) :
    rule.pick? (first ++ later) = (rule.pick? first).or (rule.pick? later) := by
  rw [pick?, List.map_append, List.filter_append, List.find?_append, ← pick?, ← pick?]

/-- A line that a rule accepts once it is decoded. -/
def AcceptsBytes (line : List UInt8) : Prop :=
  trim (decodeLossy line) ≠ [] ∧ rule.line.accepts (trim (decodeLossy line)) = true

instance (line : List UInt8) : Decidable (rule.AcceptsBytes line) :=
  inferInstanceAs (Decidable (_ ∧ _))

variable {rule}

theorem pick?_eq_none_iff {found : List (List Char)} :
    rule.pick? found = none ↔
      ∀ line ∈ found, trim line ≠ [] → rule.line.accepts (trim line) = false := by
  simp [pick?, List.find?_eq_none]

theorem pick?_of_accepted {found : List (List UInt8)}
    (accepted : ∃ line ∈ found, rule.AcceptsBytes line) :
    rule.pick? (found.map decodeLossy) ≠ none := by
  obtain ⟨line, mem, filled, accepted⟩ := accepted
  intro none_picked
  have refused := pick?_eq_none_iff.1 none_picked _ (List.mem_map_of_mem mem) filled
  exact Bool.noConfusion (accepted.symm.trans refused)

theorem pick?_of_refused {line : List UInt8} (refused : ¬rule.AcceptsBytes line) :
    rule.pick? [decodeLossy line] = none := by
  rw [pick?_eq_none_iff, List.forall_mem_singleton]
  exact fun filled => eq_false_of_ne_true fun accepted => refused ⟨filled, accepted⟩

/-- A line that comes too late to be picked, or is not accepted, can be any other of that kind. -/
theorem pick?_replace {first later : List (List UInt8)} {old new : List UInt8}
    (spared : (∃ line ∈ first, rule.AcceptsBytes line) ∨
      (¬rule.AcceptsBytes old ∧ ¬rule.AcceptsBytes new)) :
    rule.pick? ((first ++ new :: later).map decodeLossy) =
      rule.pick? ((first ++ old :: later).map decodeLossy) := by
  have parts (line : List UInt8) : rule.pick? ((first ++ line :: later).map decodeLossy) =
      (rule.pick? (first.map decodeLossy)).or ((rule.pick? [decodeLossy line]).or
        (rule.pick? (later.map decodeLossy))) := by
    rw [List.map_append, List.map_cons, pick?_append, ← List.singleton_append, pick?_append]
  rw [parts, parts]
  rcases spared with early | ⟨refused, refused'⟩
  · obtain ⟨found, eq⟩ := Option.ne_none_iff_exists'.1 (pick?_of_accepted early)
    rw [eq, Option.some_or, Option.some_or]
  · rw [pick?_of_refused refused, pick?_of_refused refused']

/-! ## Runs -/

theorem line?_output (rule : Rule) (ended : Ended) :
    rule.line? ended.output.combined.toList = rule.pick? (ended.byteLines.map decodeLossy) := by
  rw [line?, ended.lines_output, pick?]

theorem extract_output_eq (rule : Rule) (ended : Ended) :
    rule.extract ended.output.combined = rule.extractLines (ended.byteLines.map decodeLossy) := by
  rw [extract, version?, line?_output, extractLines]

/-- Bytes that are cut into lines first and decoded line by line give what the decoded output of a
run gives, to every rule.  No line break is lost or made, and what becomes of one line, damaged or
not, changes neither which of the others is read nor what is read from it. -/
theorem extract_output (rule : Rule) (ended : Ended) :
    rule.extract ended.output.combined = rule.extractLines (ended.byteLines.map decodeLossy) ∧
    (split isLineBreak ended.output.stdout.toList =
        (split isBreakByte ended.stdout).map decodeLossy ∧
      split isLineBreak ended.output.stderr.toList =
        (split isBreakByte ended.stderr).map decodeLossy) ∧
    ∀ (damaged : Ended) (first later : List (List UInt8)) (old new : List UInt8),
      ended.byteLines = first ++ old :: later → damaged.byteLines = first ++ new :: later →
      ((∃ line ∈ first, rule.AcceptsBytes line) ∨
        (¬rule.AcceptsBytes old ∧ ¬rule.AcceptsBytes new)) →
      rule.line? damaged.output.combined.toList = rule.line? ended.output.combined.toList ∧
        rule.extract damaged.output.combined = rule.extract ended.output.combined := by
  refine ⟨extract_output_eq rule ended, ended.split_output, ?_⟩
  intro damaged first later old new whole whole' spared
  have same : rule.pick? (damaged.byteLines.map decodeLossy) =
      rule.pick? (ended.byteLines.map decodeLossy) := by
    rw [whole, whole']
    exact pick?_replace spared
  constructor
  · rw [line?_output, line?_output, same]
  · rw [extract_output_eq, extract_output_eq, extractLines, extractLines, same]

/-- A character breaks off at the end of the first line, and another one at the end of standard
output; the version is read from the second line all the same. -/
theorem extract_output_of_cut_characters :
    let version := encode "etcd Version: 3.2.5".toList
    let sound : Ended := ⟨.code 0, encode "log €\n".toList ++ version, [0xAC]⟩
    let damaged : Ended := ⟨.code 0, encode "log ".toList ++ [0xE2, 0x82, 0x0A] ++ version, [0xAC]⟩
    let broken := encode "log ".toList ++ [0xE2, 0x82]
    sound.byteLines = [] ++ encode "log €".toList :: [version, [0xAC]] ∧
      damaged.byteLines = [] ++ broken :: [version, [0xAC]] ∧
      ¬Tool.etcd.rule.AcceptsBytes (encode "log €".toList) ∧
      ¬Tool.etcd.rule.AcceptsBytes broken ∧
      Tool.etcd.rule.extract damaged.output.combined =
        Tool.etcd.rule.extract sound.output.combined ∧
      Tool.etcd.rule.extract sound.output.combined = .ok (some "3.2.5") := by
  intro version sound damaged broken
  have whole : sound.byteLines = [] ++ encode "log €".toList :: [version, [0xAC]] := by
    decide +kernel
  have whole' : damaged.byteLines = [] ++ broken :: [version, [0xAC]] := by decide +kernel
  have refused : ¬Tool.etcd.rule.AcceptsBytes (encode "log €".toList) := by decide +kernel
  have refused' : ¬Tool.etcd.rule.AcceptsBytes broken := by decide +kernel
  have same := (extract_output Tool.etcd.rule sound).2.2 damaged [] [version, [0xAC]] _ _
    whole whole' (.inr ⟨refused, refused'⟩)
  exact ⟨whole, whole', refused, refused', same.2, by decide +kernel⟩

end Banner.Rule

end NodeInventory
