import CompositeSorts.Cbor.Reports
import CompositeSorts.Cbor.Settings
import CompositeSorts.Proofs.Cbor.Scanning
import CompositeSorts.Proofs.Matching.Scores
import CompositeSorts.Proofs.Registry.Reachable

/-!
What survives being stored as data, with any faithful codec. Every configuration does. A report does
as long as it is not too high: the map of a report stands in the list of parts, in the map of the
report around it, and only so many containers may stand inside each other. So a report that is
higher is written, but its bytes are not read back (`survives_iff`). With a limit of 127 containers
these are the reports with more than 63 reports inside each other.
-/

set_option autoImplicit false
set_option relaxedAutoImplicit false

namespace CompositeSorts

open Cbor Registry

variable {codec : Codec} {limit : Nat}

/-- Reading one thing after the other succeeds when both do. -/
theorem Cbor.bind_eq_ok_iff {α β : Type} {first : Reading α} {next : α → Reading β} {b : β} :
    (first >>= next) = .ok b ↔ ∃ a, first = .ok a ∧ next a = .ok b := by
  cases first with
  | error fault => simp [bind, Except.bind]
  | ok a => simp [bind, Except.bind]

theorem Cbor.readAll_eq_ok_iff {α : Type} {read : Item → Reading α} {bytes : Bytes} {value : α} :
    readAll codec read bytes = .ok value ↔
      read (codec.decode bytes).1 = .ok value ∧ (codec.decode bytes).2 = [] := by
  unfold readAll
  obtain ⟨item, rest⟩ := codec.decode bytes
  rw [bind_eq_ok_iff]
  cases rest with
  | nil => simp [pure, Except.pure]
  | cons byte rest => simp

theorem Cbor.unfit_ne_ok {α : Type} {item : Item} {value : α} : unfit item ≠ .ok value := by
  cases item <;> exact nofun

/-! ### Settings -/

namespace Configuration

theorem depth_item (config : Configuration) : config.item.depth = 1 := rfl

theorem regular_item {config : Configuration} (fits : config.maxAlternatives < 2 ^ 64) :
    config.item.Regular :=
  ⟨rfl, by simp, trivial, trivial, trivial, trivial, trivial, fits, trivial⟩

theorem ofItem_item {config : Configuration} (fits : config.maxAlternatives < 2 ^ 64) :
    ofItem config.item = .ok config := by
  have limit : config.maxAlternatives < lengthLimit := fits
  simp [ofItem, item, Fields.readRecord, Item.untagged, Fields.readNamed, fields, nameIndex,
    fieldNames, string, boolean, natural, limit, ofGiven, bind, Except.bind, pure, Except.pure,
    List.idxOf?, List.findIdx?, List.findIdx?.go]

theorem ofCbor_toCbor (faithful : codec.Faithful limit) (room : 1 ≤ limit) {config : Configuration}
    (fits : config.maxAlternatives < 2 ^ 64) (small : (config.toCbor codec).length < 2 ^ 64) :
    ofCbor codec (config.toCbor codec) = .ok config := by
  rw [ofCbor, readAll_eq_ok_iff, toCbor, faithful.decode_encode _ (regular_item fits)
    (config.depth_item.trans_le room) small]
  exact ⟨ofItem_item fits, rfl⟩

end Configuration

/-! ### Tallies -/

namespace Tally

theorem depth_item (t : Tally) : t.item.depth = 1 := rfl

theorem regular_item (t : Tally) : t.item.Regular := by
  have wide (n : Counter) : n.value < 2 ^ 64 := Nat.lt_trans n.value_lt (by decide)
  exact ⟨rfl, by simp, trivial, wide _, trivial, wide _, trivial, wide _, trivial, wide _, trivial,
    wide _, trivial, wide _, trivial, wide _, trivial, wide _, trivial, wide _, trivial⟩

/-- The words of a tally are read from its item; whether one has carried is not stored. -/
theorem ofItem_item (t : Tally) : ofItem t.item = .ok t.plain := by
  have inside (n : Counter) : n.value < counterLimit := n.value_lt
  simp [ofItem, item, Fields.readRecord, Item.untagged, Fields.readNamed, fields, nameIndex,
    fieldNames, natural, bind, Except.bind, pure, Except.pure, List.idxOf?, List.findIdx?,
    List.findIdx?.go, ofCounters, inside, plain, Counter.natCast_value]

end Tally

/-! ### Reports -/

namespace Report

mutual

/-- How many reports stand inside each other in a report. -/
def height : Report → Nat
  | ⟨_, _, _, _, _, _, parts, alternatives⟩ => max (heightAll parts) (heightAll alternatives) + 1

/-- The largest height among several reports. -/
def heightAll : List Report → Nat
  | [] => 0
  | report :: reports => max report.height (heightAll reports)

end

mutual

/-- The report holds the words of counters only, and the terms of its score are in the range that
they are read in. -/
def Fits : Report → Prop
  | ⟨_, _, _, _, tally, score, parts, alternatives⟩ =>
    tally.plain = tally ∧ score.numerator < lengthLimit ∧ score.denominator < lengthLimit ∧
      FitAll parts ∧ FitAll alternatives

/-- So do all of several reports. -/
def FitAll : List Report → Prop
  | [] => True
  | report :: reports => report.Fits ∧ FitAll reports

end

theorem fitAll_of_forall {reports : List Report} (each : ∀ report ∈ reports, report.Fits) :
    FitAll reports := by
  induction reports with
  | nil => trivial
  | cons report reports ih =>
    obtain ⟨first, others⟩ := List.forall_mem_cons.mp each
    exact ⟨first, ih others⟩

/-- The report of a match fits when those inside it do: a penalty is far from the range of its
words. -/
theorem fits_reportNode (c : Catalog) (node : MatchNode) {parts alternatives : List Report}
    (inside : ∀ report ∈ parts, report.Fits) (behind : ∀ report ∈ alternatives, report.Fits) :
    (Matchings.reportNode c node parts alternatives).Fits := by
  have penalty := node.tally.bounds.2.2
  have scale := node.scale.value_lt
  have limit : lengthLimit = 2 ^ 64 := rfl
  have size : UInt32.size = 2 ^ 32 := rfl
  refine ⟨rfl, ?_, ?_, fitAll_of_forall inside, fitAll_of_forall behind⟩
  · simp only [MatchNode.score, Tally.score, Ratio.of]
    omega
  · simp only [MatchNode.score, Tally.score, Ratio.of]
    omega

theorem fits_of_part (t : Matchings) (c : Catalog) (around : List Nat) (id : MatchId)
    (report : Report) (made : t.reportPart c around id = some report) : report.Fits := by
  rw [Matchings.reportPart] at made
  split_ifs at made with present busy
  obtain rfl := Option.some.inj made
  refine fits_reportNode c _ (fun report among ↦ ?_)
    fun report among ↦ absurd among List.not_mem_nil
  obtain ⟨part, isPart, made⟩ := List.mem_filterMap.mp among
  exact fits_of_part t c (id.index :: around) part report made
termination_by (unvisited (List.range t.nodes.size) around).length
decreasing_by exact length_unvisited_cons_lt (List.mem_range.2 ‹_›) ‹_›

/-- Every report of a match fits. -/
theorem fits_of_reported {t : Matchings} {c : Catalog} {id : MatchId} {report : Report}
    (reported : t.report c id = some report) : report.Fits := by
  obtain ⟨node, -, rfl⟩ := Option.map_eq_some_iff.mp reported
  refine fits_reportNode c node (fun report among ↦ ?_) fun report among ↦ ?_
  · obtain ⟨part, -, made⟩ := List.mem_filterMap.mp among
    exact fits_of_part t c _ part report made
  · obtain ⟨other, -, made⟩ := List.mem_filterMap.mp among
    exact fits_of_part t c _ other report made

/-- The largest depth is a maximum over the items, wherever they stand. -/
theorem depthAll_append (items others : List Item) :
    Item.depthAll (items ++ others) = max (Item.depthAll items) (Item.depthAll others) := by
  induction items with
  | nil => exact (Nat.zero_max _).symm
  | cons item items ih => rw [List.cons_append, Item.depthAll, Item.depthAll, ih, Nat.max_assoc]

/-- A list of reports with its key, left out when it is empty, does not count for more than a
tally unless there are reports in it. -/
theorem max_depthAll_listed {reports : List Report} (key : String)
    (inside : Item.depthAll (itemAll reports) = 2 * heightAll reports) :
    max 1 (Item.depthAll (if reports.isEmpty then []
      else [.text key, .array (itemAll reports) false])) = 2 * heightAll reports + 1 := by
  cases reports with
  | nil => rfl
  | cons report reports =>
    rw [List.isEmpty_cons, if_neg Bool.false_ne_true]
    simp only [Item.depthAll, Item.depth, inside]
    omega

mutual

/-- Every report takes two containers: its map, and the map of its tally or the list around a
report inside it. -/
theorem depth_item (report : Report) : report.item.depth = 2 * report.height := by
  obtain ⟨left, right, level, grade, tally, score, parts, alternatives⟩ := report
  have ofParts := max_depthAll_listed "parts" (depth_itemAll parts)
  have ofAlternatives := max_depthAll_listed "alternatives" (depth_itemAll alternatives)
  rw [item, height, Item.depth, depthAll_append, depthAll_append]
  simp only [Item.depthAll, Item.depth, tally.depth_item]
  omega

theorem depth_itemAll (reports : List Report) :
    Item.depthAll (itemAll reports) = 2 * heightAll reports := by
  match reports with
  | [] => rfl
  | report :: reports =>
    rw [itemAll, heightAll, Item.depthAll, depth_item report, depth_itemAll reports,
      Nat.mul_max_mul_left]

end

theorem regularAll_append {items others : List Item} (first : Item.RegularAll items)
    (second : Item.RegularAll others) : Item.RegularAll (items ++ others) := by
  induction items with
  | nil => exact second
  | cons item items ih => exact ⟨first.1, ih first.2⟩

theorem regularAll_listed {reports : List Report} (key : String)
    (inside : Item.RegularAll (itemAll reports)) :
    Item.RegularAll (if reports.isEmpty then []
      else [.text key, .array (itemAll reports) false]) := by
  split
  · trivial
  · exact ⟨trivial, ⟨rfl, inside⟩, trivial⟩

theorem length_listed (reports : List Report) (key : String) :
    ∃ n, (if reports.isEmpty then [] else
      [Item.text key, .array (itemAll reports) false]).length = 2 * n := by
  split
  · exact ⟨0, rfl⟩
  · exact ⟨1, rfl⟩

mutual

theorem regular_item (report : Report) (fits : report.Fits) : report.item.Regular := by
  obtain ⟨left, right, level, grade, tally, score, parts, alternatives⟩ := report
  obtain ⟨-, numerator, denominator, ofParts, ofAlternatives⟩ := fits
  have flat : Item.RegularAll [.text "lhs", .text left, .text "rhs", .text right,
      .text "level", .text level.tag, .text "grade", .text grade.tag, .text "stats", tally.item,
      .text "numerator", .unsigned score.numerator,
      .text "denominator", .unsigned score.denominator] :=
    ⟨trivial, trivial, trivial, trivial, trivial, trivial, trivial, trivial, trivial,
      tally.regular_item, trivial, numerator, trivial, denominator, trivial⟩
  have partsToo := regularAll_listed "parts" (regular_itemAll parts ofParts)
  have alternativesToo :=
    regularAll_listed "alternatives" (regular_itemAll alternatives ofAlternatives)
  obtain ⟨n, few⟩ := length_listed parts "parts"
  obtain ⟨m, few'⟩ := length_listed alternatives "alternatives"
  rw [item]
  refine ⟨?_, ?_, regularAll_append (regularAll_append flat partsToo) alternativesToo⟩
  · simp only [List.length_append, List.length_cons, List.length_nil, few, few']
    simp
    omega
  · simp only [List.length_append, List.length_cons, List.length_nil, few, few']
    omega

theorem regular_itemAll (reports : List Report) (fit : FitAll reports) :
    Item.RegularAll (itemAll reports) := by
  match reports with
  | [] => trivial
  | report :: reports => exact ⟨regular_item report fit.1, regular_itemAll reports fit.2⟩

end

theorem choice_level (level : Level) :
    Given.choice Level.all Level.tag (.text level.tag) = .ok level := by
  cases level <;> decide

theorem choice_grade (grade : Grade) :
    Given.choice Grade.all Grade.tag (.text grade.tag) = .ok grade := by
  cases grade <;> decide

/-- The parts that are no lists, read into nothing. -/
theorem readNamed_flat {tally : Tally} (ofTally : tally.plain = tally) {score : Ratio}
    (numerator : score.numerator < lengthLimit) (denominator : score.denominator < lengthLimit)
    (left right : String) (level : Level) (grade : Grade) (others : List Item) :
    readNamed {} ([.text "lhs", .text left, .text "rhs", .text right,
      .text "level", .text level.tag, .text "grade", .text grade.tag, .text "stats", tally.item,
      .text "numerator", .unsigned score.numerator,
      .text "denominator", .unsigned score.denominator] ++ others) =
    readNamed ⟨left, right, level, grade, tally, score.numerator, score.denominator, none, none⟩
      others := by
  simp [readNamed, nameIndex, fieldNames, Item.untagged, List.idxOf?, List.findIdx?,
    List.findIdx?.go, readPart, Given.readFlat, Given.has, string, choice_level, choice_grade,
    Tally.ofItem_item, ofTally, natural, numerator, denominator, bind, Except.bind, pure,
    Except.pure]

/-- The parts, read when no parts were read yet. There may be none, then none are listed. -/
theorem readNamed_parts {given : Given} (new : given.parts = none) {parts : List Report}
    (inside : ofElements false (itemAll parts) = .ok parts) (others : List Item) :
    readNamed given ((if parts.isEmpty then []
      else [.text "parts", .array (itemAll parts) false]) ++ others) =
    readNamed { given with parts := if parts.isEmpty then none else some parts } others := by
  cases parts with
  | nil =>
    obtain ⟨_, _, _, _, _, _, _, _, _⟩ := given
    cases new
    rfl
  | cons part parts =>
    simp [readNamed, nameIndex, fieldNames, Item.untagged, List.idxOf?, List.findIdx?,
      List.findIdx?.go, readPart, Given.has, new, ofList, inside, bind, Except.bind, pure,
      Except.pure]

/-- The same of the alternatives. -/
theorem readNamed_alternatives {given : Given} (new : given.alternatives = none)
    {alternatives : List Report}
    (inside : ofElements false (itemAll alternatives) = .ok alternatives) :
    readNamed given (if alternatives.isEmpty then []
      else [.text "alternatives", .array (itemAll alternatives) false]) =
    .ok { given with
      alternatives := if alternatives.isEmpty then none else some alternatives } := by
  cases alternatives with
  | nil =>
    obtain ⟨_, _, _, _, _, _, _, _, _⟩ := given
    cases new
    rfl
  | cons report alternatives =>
    simp [readNamed, nameIndex, fieldNames, Item.untagged, List.idxOf?, List.findIdx?,
      List.findIdx?.go, readPart, Given.has, new, ofList, inside, bind, Except.bind, pure,
      Except.pure]

mutual

/-- A report is read from its item. -/
theorem ofItem_item (report : Report) (fits : report.Fits) : ofItem report.item = .ok report := by
  obtain ⟨left, right, level, grade, tally, score, parts, alternatives⟩ := report
  obtain ⟨ofTally, numerator, denominator, ofParts, ofAlternatives⟩ := fits
  rw [item, ofItem, List.append_assoc, readNamed_flat ofTally numerator denominator,
    readNamed_parts rfl (ofElements_itemAll parts ofParts),
    readNamed_alternatives rfl (ofElements_itemAll alternatives ofAlternatives)]
  cases parts <;> cases alternatives <;> rfl

theorem ofElements_itemAll (reports : List Report) (fit : FitAll reports) :
    ofElements false (itemAll reports) = .ok reports := by
  match reports with
  | [] => rfl
  | report :: reports =>
    rw [itemAll, ofElements, ofItem_item report fit.1, ofElements_itemAll reports fit.2]
    rfl

end

/-- The tally that was read was in a container, and so were the lists, with the reports in them. -/
structure Given.Within (given : Given) (depth : Nat) : Prop where
  tally : given.tally.isSome → 1 ≤ depth
  parts : ∀ reports ∈ given.parts, 2 * heightAll reports + 1 ≤ depth
  alternatives : ∀ reports ∈ given.alternatives, 2 * heightAll reports + 1 ≤ depth

theorem Given.within_nothing (depth : Nat) : Given.Within {} depth := ⟨nofun, nofun, nofun⟩

theorem Given.Within.height_le {given : Given} {depth : Nat} (h : given.Within depth)
    {report : Report} (read : given.report = .ok report) : 2 * report.height ≤ depth + 1 := by
  unfold Given.report at read
  split at read
  · cases read
    rename_i parts alternatives
    have one := h.tally rfl
    have ofParts : 2 * heightAll (parts.getD []) + 1 ≤ depth := by
      cases parts with
      | none => exact one
      | some reports => exact h.parts reports rfl
    have ofAlternatives : 2 * heightAll (alternatives.getD []) + 1 ≤ depth := by
      cases alternatives with
      | none => exact one
      | some reports => exact h.alternatives reports rfl
    rw [height]
    omega
  · cases read

/-- What is a tally has a container around its counters. -/
theorem one_le_depth_of_tally {item : Item} {tally : Tally} (read : Tally.ofItem item = .ok tally) :
    1 ≤ item.depth := by
  obtain ⟨_, eq, -⟩ := bind_eq_ok_iff.mp read
  cases item with
  | array _ _ | map _ _ | tagged _ => exact Nat.le_add_left 1 _
  | _ => cases eq

theorem Given.Within.readPart {given after : Given} {depth index : Nat} {item : Item}
    {asList : Reading (List Report)} (h : given.Within depth) (deep : item.depth ≤ depth)
    (listed : ∀ reports, asList = .ok reports → 2 * heightAll reports + 1 ≤ depth)
    (read : Report.readPart given index item asList = .ok after) : after.Within depth := by
  unfold Report.readPart at read
  split at read
  · obtain ⟨reports, eq, same⟩ := bind_eq_ok_iff.mp read
    cases same
    exact ⟨h.tally, fun _ there ↦ Option.some.inj there ▸ listed reports eq, h.alternatives⟩
  · obtain ⟨reports, eq, same⟩ := bind_eq_ok_iff.mp read
    cases same
    exact ⟨h.tally, h.parts, fun _ there ↦ Option.some.inj there ▸ listed reports eq⟩
  · unfold Given.readFlat at read
    split at read
    all_goals
      obtain ⟨value, eq, same⟩ := bind_eq_ok_iff.mp read
      cases same
    case h_5 =>
      exact ⟨fun _ ↦ Nat.le_trans (one_le_depth_of_tally eq) deep, h.parts, h.alternatives⟩
    all_goals exact ⟨h.tally, h.parts, h.alternatives⟩

mutual

/-- An item that is a report has two containers for every report inside another. -/
theorem height_le_of_ofItem (item : Item) {report : Report} (read : ofItem item = .ok report) :
    2 * report.height ≤ item.depth := by
  -- The item need not be one that a report is written as, so lists and tags are cases as well.
  match item with
  | .tagged content =>
    rw [ofItem] at read
    exact Nat.le_succ_of_le (height_le_of_ofItem content read)
  | .map _ entries =>
    rw [ofItem] at read
    obtain ⟨given, named, whole⟩ := bind_eq_ok_iff.mp read
    have within := within_of_readNamed entries named (Given.within_nothing _) (Nat.le_refl _)
    exact within.height_le whole
  | .array elements _ =>
    rw [ofItem] at read
    obtain ⟨given, ordered, whole⟩ := bind_eq_ok_iff.mp read
    exact (within_of_readInOrder elements ordered (Given.within_nothing _)
      (Nat.le_refl _)).height_le whole
  | .unsigned _ | .negative _ | .bytes _ | .text _ | .bool _ | .null | .float | .broken _ =>
    exact absurd read unfit_ne_ok

theorem within_of_readNamed (entries : List Item) {given after : Given} {depth : Nat}
    (read : readNamed given entries = .ok after) (h : given.Within depth)
    (deep : Item.depthAll entries ≤ depth) : after.Within depth := by
  match entries with
  | [] =>
    cases read
    exact h
  | [_] =>
    rw [readNamed] at read
    obtain ⟨_, _, eq⟩ := bind_eq_ok_iff.mp read
    cases eq
  | key :: value :: others =>
    rw [Item.depthAll, Nat.max_le, Item.depthAll, Nat.max_le] at deep
    rw [readNamed] at read
    obtain ⟨index, _, eq⟩ := bind_eq_ok_iff.mp read
    cases index with
    | none =>
      obtain ⟨_, _, eq⟩ := bind_eq_ok_iff.mp eq
      exact within_of_readNamed others eq h deep.2.2
    | some index =>
      dsimp only at eq
      split at eq
      · cases eq
      · obtain ⟨middle, eq, read⟩ := bind_eq_ok_iff.mp eq
        have listed (reports : List Report) (found : ofList value = .ok reports) :=
          Nat.le_trans (heightAll_le_of_ofList value found) deep.2.1
        exact within_of_readNamed others read (h.readPart deep.2.1 listed eq) deep.2.2

theorem within_of_readInOrder (elements : List Item) {given after : Given} {index depth : Nat}
    {cutShort : Bool} (read : readInOrder given index cutShort elements = .ok after)
    (h : given.Within depth) (deep : Item.depthAll elements ≤ depth) : after.Within depth := by
  match elements with
  | [] =>
    rw [readInOrder] at read
    split at read
    · cases read
    · cases read
      exact h
  | value :: others =>
    rw [Item.depthAll, Nat.max_le] at deep
    rw [readInOrder] at read
    split at read
    · cases read
    · obtain ⟨middle, eq, read⟩ := bind_eq_ok_iff.mp read
      have listed (reports : List Report) (found : ofList value = .ok reports) :=
        Nat.le_trans (heightAll_le_of_ofList value found) deep.1
      exact within_of_readInOrder others read (h.readPart deep.1 listed eq) deep.2

theorem heightAll_le_of_ofList (item : Item) {reports : List Report}
    (read : ofList item = .ok reports) : 2 * heightAll reports + 1 ≤ item.depth := by
  match item with
  | .tagged content =>
    rw [ofList] at read
    exact Nat.le_succ_of_le (heightAll_le_of_ofList content read)
  | .array elements _ =>
    rw [ofList] at read
    exact Nat.succ_le_succ (heightAll_le_of_ofElements elements read)
  | .map _ _ | .unsigned _ | .negative _ | .bytes _ | .text _ | .bool _ | .null | .float
  | .broken _ => exact absurd read unfit_ne_ok

theorem heightAll_le_of_ofElements (elements : List Item) {cutShort : Bool} {reports : List Report}
    (read : ofElements cutShort elements = .ok reports) :
    2 * heightAll reports ≤ Item.depthAll elements := by
  match elements with
  | [] =>
    rw [ofElements] at read
    split at read
    · cases read
    · cases read
      exact Nat.zero_le _
  | element :: elements =>
    rw [ofElements] at read
    obtain ⟨report, first, read⟩ := bind_eq_ok_iff.mp read
    obtain ⟨reports, others, eq⟩ := bind_eq_ok_iff.mp read
    cases eq
    have one := height_le_of_ofItem element first
    have all := heightAll_le_of_ofElements elements others
    rw [heightAll, Item.depthAll]
    omega

end

/-- From no bytes at all comes a report that is higher than the codec allows. -/
theorem height_le_of_ofCbor (faithful : codec.Faithful limit) {bytes : Bytes} {report : Report}
    (read : ofCbor codec bytes = .ok report) : 2 * report.height ≤ limit :=
  Nat.le_trans (height_le_of_ofItem _ (readAll_eq_ok_iff.mp read).1)
    (faithful.depth_decode_le bytes)

theorem ofCbor_toCbor (faithful : codec.Faithful limit) {report : Report} (fits : report.Fits)
    (small : (report.toCbor codec).length < 2 ^ 64) (low : 2 * report.height ≤ limit) :
    ofCbor codec (report.toCbor codec) = .ok report := by
  have deep : report.item.depth ≤ limit := report.depth_item ▸ low
  rw [ofCbor, readAll_eq_ok_iff, toCbor,
    faithful.decode_encode _ (regular_item report fits) deep small]
  exact ⟨ofItem_item report fits, rfl⟩

/-- What stands behind a key in a map. -/
def valueAt (key : String) : List Item → Option Item
  | .text text :: value :: others => if text = key then some value else valueAt key others
  | _ => none

/-- The list of some reports, if there are any. -/
def listed (reports : List Report) : Option Item :=
  if reports.isEmpty then none else some (.array (reports.map item) false)

theorem itemAll_eq_map (reports : List Report) : itemAll reports = reports.map item := by
  induction reports with
  | nil => rfl
  | cons report reports ih => rw [itemAll, ih, List.map_cons]

/-- A report is a map, in which a list is left out just when it is empty. -/
theorem exists_entries (report : Report) : ∃ entries, report.item = .map false entries ∧
    valueAt "parts" entries = listed report.parts ∧
    valueAt "alternatives" entries = listed report.alternatives := by
  obtain ⟨left, right, level, grade, tally, score, parts, alternatives⟩ := report
  refine ⟨_, rfl, ?_, ?_⟩ <;> cases parts <;> cases alternatives <;>
    simp [valueAt, listed, itemAll_eq_map]

end Report

/-- With a faithful codec a configuration is read back from its bytes. The report of a match is read
back from its bytes just when the codec allows two containers for each of the reports that stand
inside each other in it. Its bytes are those of a map; in it, as in the map of every report inside,
the lists of parts and of alternatives are left out when they are empty. -/
theorem survives_iff (faithful : codec.Faithful limit) (room : 1 ≤ limit) (config : Configuration)
    (settings : config.maxAlternatives < 2 ^ 64) (brief : (config.toCbor codec).length < 2 ^ 64)
    (r : Registry) (id : MatchId) (report : Report) (reported : r.report id = some report)
    (small : (report.toCbor codec).length < 2 ^ 64) :
    Configuration.ofCbor codec (config.toCbor codec) = .ok config ∧
      (Report.ofCbor codec (report.toCbor codec) = .ok report ↔ 2 * report.height ≤ limit) ∧
      report.toCbor codec = codec.encode report.item ∧
      ∀ inside : Report, ∃ entries, inside.item = .map false entries ∧
        Report.valueAt "parts" entries = Report.listed inside.parts ∧
        Report.valueAt "alternatives" entries = Report.listed inside.alternatives :=
  ⟨Configuration.ofCbor_toCbor faithful room settings brief,
    ⟨Report.height_le_of_ofCbor faithful,
      Report.ofCbor_toCbor faithful (Report.fits_of_reported reported) small⟩,
    rfl, Report.exists_entries⟩

/-- A sort with an attribute, which is given a name and is in turn made an attribute of that sort,
and so on. -/
def tower : Nat → Registry
  | 0 => sample.perform (.defineAll "a: [Flag]; b: [Label] b")
  | levels + 1 =>
    ((tower levels).perform (.combine ⟨⟨0⟩, ⟨1, 0⟩⟩ ⟨⟨0⟩, ⟨2 * levels + 3, 0⟩⟩)).perform
      (.duplicate ⟨⟨0⟩, ⟨2 * levels + 4, 0⟩⟩ ("n" ++ toString levels))

theorem reachable_tower (levels : Nat) : Reachable AnyCall (tower levels) := by
  induction levels with
  | zero => exact .step (reachable_sample _) _ trivial
  | succ levels ih => exact .step (.step ih _ trivial) _ trivial

/-- A sort with two attributes, matched with the last one. -/
theorem survives_iff_sample :
    let r := (tower 2).perform (.matchSorts ⟨⟨0⟩, ⟨7, 0⟩⟩ ⟨⟨0⟩, ⟨3, 0⟩⟩)
    ∃ report, r.report ⟨5⟩ = some report ∧ report.parts.length = 1 ∧
      Report.ofCbor .standard (report.toCbor .standard) = .ok report ∧
      Configuration.ofCbor .standard (r.config.toCbor .standard) = .ok r.config := by
  intro r
  obtain ⟨report, reported, looks⟩ : ∃ report, r.report ⟨5⟩ = some report ∧
      (report.parts.length, report.height, (report.toCbor .standard).length) = (1, 2, 331) :=
    Option.map_eq_some_iff.mp (by decide +kernel)
  simp only [Prod.mk.injEq] at looks
  obtain ⟨parts, height, length⟩ := looks
  obtain ⟨settings, read, -⟩ := survives_iff faithful_standard (by decide) r.config
    (by decide +kernel) (by decide +kernel) r ⟨5⟩ report reported (by rw [length]; decide)
  exact ⟨report, reported, parts, read.mpr (by rw [height]; decide), settings⟩

/-- Not every report is read back: that of a sort with 64 attributes, matched with the last one, has
64 reports inside each other. -/
theorem exists_report_not_read :
    ¬ ∀ codec : Codec, codec.Faithful 127 → ∀ r, Reachable AnyCall r → ∀ id report,
      r.report id = some report → Report.ofCbor codec (report.toCbor codec) = .ok report := by
  intro readBack
  let r := (tower 64).perform (.matchSorts ⟨⟨0⟩, ⟨131, 0⟩⟩ ⟨⟨0⟩, ⟨3, 0⟩⟩)
  have reached : Reachable AnyCall r := .step (reachable_tower 64) _ trivial
  obtain ⟨report, reported, height⟩ : ∃ report, r.report ⟨129⟩ = some report ∧ report.height = 64 :=
    Option.map_eq_some_iff.mp (by decide +kernel)
  have low := Report.height_le_of_ofCbor faithful_standard
    (readBack .standard faithful_standard r reached _ report reported)
  rw [height] at low
  exact absurd low (by decide)

end CompositeSorts
