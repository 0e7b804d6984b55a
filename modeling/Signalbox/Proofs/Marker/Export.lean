import Signalbox.Csv.Tables
import Signalbox.Marker.Load
import Signalbox.Proofs.Csv.Integers
import Signalbox.Proofs.Csv.Reading

/-!
# The nodes of a network are loaded from their table

A table of the nodes of a network, with the name of their region before each, is a table of markers.
Loading it gives the nodes again, in their order, whatever commas, quotes and line ends their texts
hold.  Two things a table cannot tell apart, and the statement leaves out: a text with blanks at its
ends from the text without, since the reader trims; and a text that is empty from one that is
absent.

* `MarkerRow.underHeadings_nodeRecord` : the row of a node says what the node says;
* `MarkerRoll.loadText_markerTable` : all nodes are loaded, for the one region, and no more.
-/

set_option autoImplicit false

namespace Signalbox

open Digest (textBytes)

/-! ## What a table keeps -/

namespace Text

theorem trimmed_of_forall {cs : List Char} (h : ∀ c ∈ cs, isBlank c = false) : Trimmed cs :=
  ⟨fun c mem => h c (List.mem_of_mem_head? mem), fun c mem => h c (List.mem_of_getLast? mem)⟩

theorem isBlank_of_isDigit {c : Char} (h : c.isDigit = true) : isBlank c = false := by
  have low : 48 ≤ c.toNat := (Char.isDigit_iff_toNat.1 h).1
  have high : c.toNat ≤ 57 := (Char.isDigit_iff_toNat.1 h).2
  simp [isBlank, inRanges, blankRanges]
  omega

theorem trimmed_signed (i : Int) : Trimmed (Decimal.ofInt i).toList := by
  refine trimmed_of_forall fun c mem => ?_
  rw [Decimal.ofInt, String.toList_ofList] at mem
  cases i with
  | ofNat n => exact isBlank_of_isDigit (Decimal.isDigit_of_mem_digits mem)
  | negSucc n =>
    rcases List.mem_cons.1 mem with rfl | mem
    · decide
    · exact isBlank_of_isDigit (Decimal.isDigit_of_mem_digits mem)

/-- An optional text that a table can tell: if there is one, it is not empty, and it is not blank at
its ends. -/
def Kept (s : Option String) : Prop := ∀ t ∈ s, t ≠ "" ∧ Trimmed t.toList

instance (s : Option String) : Decidable (Kept s) := inferInstanceAs (Decidable (∀ _ ∈ _, _))

theorem Kept.trimmed {s : Option String} (h : Kept s) : Trimmed (s.getD "").toList := by
  cases s with
  | none => exact trimmed_of_forall (by simp)
  | some t => exact (h t rfl).2

/-- What a table can tell is read back: an empty field is an absent text. -/
theorem Kept.nonEmpty {s : Option String} (h : Kept s) :
    MarkerRow.nonEmpty (some (s.getD "")) = s := by
  cases s with
  | none => rfl
  | some t => simp [MarkerRow.nonEmpty, (h t rfl).1]

end Text

/-- A node whose texts a table can tell, with details only if they say something. -/
structure Node.Kept (n : Node) : Prop where
  id : Text.Trimmed n.id.text.toList
  destination : Text.Kept n.destination
  details : ∀ d ∈ n.details, d.isEmpty = false ∧ Text.Kept d.operator ∧ Text.Kept d.name

namespace Node.Kept

variable {n : Node}

theorem operator (h : n.Kept) : Text.Kept (n.details.getD {}).operator := by
  cases d : n.details with
  | none => simp [Text.Kept]
  | some d' => exact (h.details d' d).2.1

theorem name (h : n.Kept) : Text.Kept (n.details.getD {}).name := by
  cases d : n.details with
  | none => simp [Text.Kept]
  | some d' => exact (h.details d' d).2.2

theorem trimmed_nodeRecord (h : n.Kept) : ∀ s ∈ Network.nodeRecord n, Text.Trimmed s.toList := by
  have kind : Text.Trimmed n.kind.text.toList := by cases n.kind <;> decide
  simp only [Network.nodeRecord, List.forall_mem_cons, List.not_mem_nil, false_implies,
    implies_true, and_true]
  refine ⟨h.id, kind, Text.trimmed_signed _, Text.trimmed_signed _, Text.trimmed_signed _,
    h.destination.trimmed, h.operator.trimmed, h.name.trimmed, ?_⟩
  cases (n.details.getD {}).platform with
  | none => exact Text.trimmed_of_forall (by simp)
  | some p => exact Text.trimmed_signed p.toNat

end Node.Kept

/-- The headings of a table of markers. -/
def MarkerRoll.headings : List String := "region" :: Network.nodeHeader

/-- The table of the nodes of a network, each behind the name of its region. -/
def Network.markerTable (g : Network) (r : RegionId) : List (List String) :=
  MarkerRoll.headings :: g.nodes.map fun n => r.text :: nodeRecord n

/-! ## Rows -/

/-- The marker that says what a node says. -/
def Marker.ofNode (n : Node) : Marker :=
  { id := n.id, kind := n.kind, pos := n.pos, destination := n.destination, details := n.details }

theorem Marker.toNode_ofNode {n : Node} (h : n.Kept) : (ofNode n).toNode = n := by
  obtain ⟨id, kind, pos, destination, details⟩ := n
  cases details with
  | none => rfl
  | some d => simp [ofNode, toNode, Node.withDetails, (h.details d rfl).1]

theorem NodeKind.ofText?_text (k : NodeKind) : ofText? k.text = some k := by cases k <;> decide

namespace MarkerRow

/-- The row of a node in the table of a region. -/
def ofNode (r : RegionId) (n : Node) : MarkerRow :=
  let d := n.details.getD {}
  { region := some r.text, id := some n.id.text, kind := some n.kind.text
    x := some n.pos.x.toInt, y := some n.pos.y.toInt, z := some n.pos.z.toInt
    destination := some (n.destination.getD ""), operator := some (d.operator.getD "")
    name := some (d.name.getD ""), platform := some (d.platform.map fun p => (p.toNat : Int)) }

theorem integer_coordinate (i : Int32) (field : Nat) :
    integer Csv.coordinateRange field (Decimal.ofInt i.toInt) = .ok i.toInt := by
  have low := i.le_toInt
  have high := i.toInt_lt
  rw [integer, Decimal.ofInt, String.toList_ofList, Csv.readInteger_signed (by decide)]
  · rfl
  · simpa [Csv.coordinateRange, negatives32] using low
  · simp [Csv.coordinateRange, negatives32]; omega

theorem put_platform (row : MarkerRow) (p : Option UInt16) (field : Nat) :
    row.put .platform field ((p.map fun p => Decimal.ofNat p.toNat).getD "") =
      .ok { row with platform := some (p.map fun p => (p.toNat : Int)) } := by
  cases p with
  | none => rfl
  | some p =>
    have digits : (Decimal.ofNat p.toNat).toList = Decimal.signed p.toNat := by
      simp [Decimal.ofNat, Decimal.signed]
    have ne : Decimal.ofNat p.toNat ≠ "" := fun eq =>
      Decimal.digits_ne_nil p.toNat (by simpa [Decimal.ofNat] using congrArg String.toList eq)
    have read : integer Csv.platformRange field (Decimal.ofNat p.toNat) = .ok (p.toNat : Int) := by
      have := p.toNat_lt
      rw [integer, digits, Csv.readInteger_signed (by decide)]
      · rfl
      · simp [Csv.platformRange]
      · simp [Csv.platformRange, size16]; omega
    simp only [Option.map_some, Option.getD_some, put, if_neg ne, read]
    rfl

/-- A field goes into the column of its heading, if that has not been read. -/
theorem underHeadings_heading {row row' : MarkerRow} {c : MarkerColumn} {field : Nat} {s : String}
    (rest : List (String × String)) (free : row.has c = false) (put : row.put c field s = .ok row') :
    row.underHeadings field ((c.heading, s) :: rest) = row'.underHeadings (field + 1) rest := by
  have heading : MarkerColumn.ofHeading? c.heading = some c := by cases c <;> decide
  rw [underHeadings, heading]
  simp only [free, put, Bool.false_eq_true, if_false]
  rfl

/-- **The row of a node says what the node says**, column by column. -/
theorem underHeadings_nodeRecord (r : RegionId) (n : Node) :
    underHeadings {} 0 (MarkerRoll.headings.zip (r.text :: Network.nodeRecord n)) =
      .ok (ofNode r n) := by
  have coordinate (i : Int32) (field : Nat) (f : Int → MarkerRow) :
      (integer Csv.coordinateRange field (Decimal.ofInt i.toInt)).map f = .ok (f i.toInt) := by
    rw [integer_coordinate]
    rfl
  refine (underHeadings_heading (c := .region) _ rfl rfl).trans ?_
  refine (underHeadings_heading (c := .id) _ rfl rfl).trans ?_
  refine (underHeadings_heading (c := .kind) _ rfl rfl).trans ?_
  refine (underHeadings_heading (c := .x) _ rfl (coordinate ..)).trans ?_
  refine (underHeadings_heading (c := .y) _ rfl (coordinate ..)).trans ?_
  refine (underHeadings_heading (c := .z) _ rfl (coordinate ..)).trans ?_
  refine (underHeadings_heading (c := .destination) _ rfl rfl).trans ?_
  refine (underHeadings_heading (c := .operator) _ rfl rfl).trans ?_
  refine (underHeadings_heading (c := .name) _ rfl rfl).trans ?_
  exact underHeadings_heading (c := .platform) _ rfl (put_platform ..)

/-- The row of a node declares it as a marker that says the same. -/
theorem marker_ofNode (r : RegionId) {n : Node} (h : n.Kept) :
    (ofNode r n).marker n.kind = (r, Marker.ofNode n) := by
  have platform (p : Option UInt16) : (p.map fun p => (p.toNat : Int)).map
      (fun i => UInt16.ofNat i.toNat) = p := by
    cases p <;> simp
  have details : (if (n.details.getD {}).isEmpty then none else some (n.details.getD {})) =
      n.details := by
    cases d : n.details with
    | none => rfl
    | some d' => simp [(h.details d' d).1]
  simp only [marker, ofNode, Marker.ofNode, Option.getD_some, Int32.ofInt_toInt,
    h.destination.nonEmpty, h.operator.nonEmpty, h.name.nonEmpty, platform, details]

end MarkerRow

/-! ## Tables -/

namespace MarkerRoll

variable {r : RegionId} {n : Node}

theorem headings?_textBytes : headings? (headings.map textBytes) = some headings := by
  have trimmed : headings.map Text.trim = headings := by decide
  have decoded (ss : List String) : (ss.map textBytes).mapM Csv.decode? = some ss := by
    induction ss with
    | nil => rfl
    | cons s ss ih => simp [ih]
  rw [headings?, decoded, Option.map_some, trimmed]

theorem readRow_nodeRecord (region : Text.Trimmed r.text.toList) (h : n.Kept) :
    readRow (some headings) headings.length ((r.text :: Network.nodeRecord n).map textBytes) =
      .ok (MarkerRow.ofNode r n) := by
  have trimmed : ∀ s ∈ r.text :: Network.nodeRecord n, Text.Trimmed s.toList :=
    List.forall_mem_cons.2 ⟨region, h.trimmed_nodeRecord⟩
  rw [readRow, if_neg (by simp [headings, Network.nodeHeader, Network.nodeRecord]),
    Csv.texts_textBytes trimmed]
  show (MarkerRow.underHeadings _ _ _).bind _ = _
  rw [MarkerRow.underHeadings_nodeRecord]
  rfl

theorem addRecords_cons {hs : Option (List String)} {width : Nat} {rec : Csv.RawRecord}
    {row : MarkerRow} {k : NodeKind} (read : readRow hs width rec.fields = .ok row)
    (kind : NodeKind.ofText? (row.kind.getD "") = some k) (t : MarkerRoll) (number : Nat)
    (recs : List Csv.RawRecord) :
    addRecords hs width t number (rec :: recs) =
      addRecords hs width (t.insert (row.marker k).1 (row.marker k).2) (number + 1) recs := by
  rw [addRecords, read]
  simp only [Except.mapError, bind, Except.bind, kind]

theorem addRecords_nodeRecords (region : Text.Trimmed r.text.toList) {ns : List Node}
    (kept : ∀ n ∈ ns, n.Kept) {recs : List Csv.RawRecord}
    (rows : recs.map Csv.RawRecord.fields =
      ns.map fun n => (r.text :: Network.nodeRecord n).map textBytes)
    (t : MarkerRoll) (number : Nat) :
    addRecords (some headings) headings.length t number recs =
      .ok (ns.foldl (fun t n => t.insert r (Marker.ofNode n)) t) := by
  induction ns generalizing recs t number with
  | nil =>
    rw [List.map_nil, List.map_eq_nil_iff] at rows
    rw [rows]
    rfl
  | cons n ns ih =>
    obtain ⟨rec, recs, rfl, row, rows⟩ := List.map_eq_cons_iff.1 rows
    have h := kept n (by simp)
    have read : readRow (some headings) headings.length rec.fields = .ok (MarkerRow.ofNode r n) := by
      rw [row]
      exact readRow_nodeRecord region h
    rw [addRecords_cons read (NodeKind.ofText?_text n.kind), MarkerRow.marker_ofNode r h,
      ih (fun n hn => kept n (by simp [hn])) rows, List.foldl_cons]

theorem extend_extend (t : MarkerRoll) (r : RegionId) (ms ms' : List Marker) :
    (t.extend r ms).extend r ms' = t.extend r (ms ++ ms') := by
  refine congrArg MarkerRoll.mk (Std.ExtTreeMap.ext_getElem? fun s => ?_)
  rw [markers_extend, if_pos rfl, List.append_assoc]
  simp only [extend, Std.ExtTreeMap.getElem?_insert]
  split <;> rfl

theorem foldl_insert (t : MarkerRoll) (ns : List Node) :
    ns.foldl (fun t n => t.insert r (Marker.ofNode n)) t =
      if ns = [] then t else t.extend r (ns.map Marker.ofNode) := by
  induction ns generalizing t with
  | nil => rfl
  | cons n ns ih =>
    rw [List.foldl_cons, ih, if_neg (List.cons_ne_nil n ns), insert, extend_extend]
    split
    · simp [*]
    · rfl

theorem keys_extend_empty (r : RegionId) (ms : List Marker) :
    (empty.extend r ms).regions.keys = [r] := by
  have one : (empty.extend r ms).regions.keys.length = 1 := by
    rw [Std.ExtTreeMap.length_keys]
    simp [extend, empty, Std.ExtTreeMap.size_insert]
  obtain ⟨s, only⟩ := List.length_eq_one_iff.1 one
  have known : r ∈ (empty.extend r ms).regions.keys := by
    rw [Std.ExtTreeMap.mem_keys]
    simp [extend]
  rw [only, List.mem_singleton] at known
  rw [only, known]

/-- The table of markers is read record by record; it does not begin with a byte order mark. -/
theorem records_markerTable (g : Network) (r : RegionId) :
    (Csv.records (textBytes (Csv.writeTable (g.markerTable r)))).map Csv.RawRecord.fields =
      headings.map textBytes ::
        (g.nodes.map fun n => r.text :: Network.nodeRecord n).map fun fs => fs.map textBytes := by
  refine Csv.fields_records (t := g.markerTable r) ?_ ?_
  · simp [Network.markerTable, headings]
  · intro bs eq
    have first : (Csv.encode (Csv.writeRecord headings)).head? = some 0x72 := by decide
    have bytes : textBytes (Csv.writeTable (g.markerTable r)) =
        Csv.encode (Csv.writeRecord headings) ++ Csv.encode
          ((g.nodes.map fun n => r.text :: Network.nodeRecord n).flatMap Csv.writeRecord) := by
      rw [Csv.writeTable, Csv.textBytes_ofList, Network.markerTable, List.flatMap_cons,
        Csv.encode_append]
    have : (textBytes (Csv.writeTable (g.markerTable r))).head? = some 0x72 := by
      rw [bytes, List.head?_append, first, Option.some_or]
    rw [eq] at this
    exact absurd (Option.some.inj this) (by decide)

/-- **All nodes of a network are loaded from its table of markers**, for the one region and in their
order, and no other region is known then. -/
theorem loadText_markerTable (g : Network) (region : Text.Trimmed r.text.toList)
    (kept : ∀ n ∈ g.nodes, n.Kept) :
    ∃ roll, loadText (Csv.writeTable (g.markerTable r)) = .ok roll ∧
      roll.regions.keys = (if g.nodes = [] then [] else [r]) ∧
      (roll.markers r).map Marker.toNode = g.nodes := by
  obtain ⟨h, recs, records, head, rows⟩ := List.map_eq_cons_iff.1 (records_markerTable g r)
  rw [List.map_map] at rows
  have loaded := addRecords_nodeRecords region kept rows empty 1
  have back : (g.nodes.map Marker.ofNode).map Marker.toNode = g.nodes := by
    rw [List.map_map]
    exact (List.map_congr_left fun n hn => Marker.toNode_ofNode (kept n hn)).trans (List.map_id _)
  have all : loadText (Csv.writeTable (g.markerTable r)) =
      addRecords (headings? h.fields) h.fields.length empty 1 recs := by
    rw [loadText, load, records]
  rw [head, headings?_textBytes, List.length_map, loaded] at all
  refine ⟨_, all, ?_⟩
  rw [foldl_insert]
  by_cases none : g.nodes = []
  · rw [if_pos none, if_pos none, none]
    exact ⟨rfl, rfl⟩
  · rw [if_neg none, if_neg none, markers_extend, if_pos rfl, keys_extend_empty]
    exact ⟨rfl, back⟩

/-- Two nodes in the far corners of the world, with separators, quotes and line ends in their
texts. -/
def quotedNetwork : Network :=
  (Network.empty.addNode
      { id := ⟨"N,\"1\""⟩, kind := .depot, pos := ⟨-2147483648, -1, 2147483647⟩
        destination := some "\"north\",\r\nsouth", details := some { platform := some 65535 } }).addNode
    { id := ⟨""⟩, kind := .switcher, pos := ⟨0, -64, 9⟩
      details := some { operator := some "\"", name := some "a\r\rb" } }

theorem loadText_markerTable_quoted :
    Text.Trimmed "plain, \"east\"".toList ∧ (∀ n ∈ quotedNetwork.nodes, n.Kept) ∧
      ∃ roll, loadText (Csv.writeTable (quotedNetwork.markerTable ⟨"plain, \"east\""⟩)) = .ok roll ∧
        roll.regions.keys = (if quotedNetwork.nodes = [] then [] else [⟨"plain, \"east\""⟩]) ∧
        (roll.markers ⟨"plain, \"east\""⟩).map Marker.toNode = quotedNetwork.nodes := by
  have region : Text.Trimmed "plain, \"east\"".toList := by decide
  have kept : ∀ n ∈ quotedNetwork.nodes, n.Kept := by
    intro n mem
    rw [Network.mem_nodes] at mem
    simp only [quotedNetwork, Network.addNode, Std.ExtTreeMap.getElem?_insert] at mem
    split at mem
    · rw [← Option.some.inj mem]
      exact ⟨by decide, by decide, by decide⟩
    · split at mem
      · rw [← Option.some.inj mem]
        exact ⟨by decide, by decide, by decide⟩
      · simp [Network.empty] at mem
  exact ⟨region, kept, loadText_markerTable quotedNetwork region kept⟩

end MarkerRoll

end Signalbox
