import ForexForest.CassandraFigures
import ForexForest.RoundedQuotient
import ForexForest.StoredForest

/-!
# The statement that stores a forest

The Cassandra program ends by inserting one row: its two arguments, the text of the
trees, the text of their accuracies and the precision of the forest.  The row is
written as one statement, with the two texts between quotes and one line for each
tree.

`StoredForest` is what the row is about.  Its text is self-delimiting at every level
(`StoredForest.text_inj`) as long as the times of the candles keep clear of quotes,
line ends and double blanks; `HW4.statement_spec` says that a run writes the text of
its forest, and `HW4.main_statement_eq_iff` that two runs write the same statement
exactly when they store the same tests, figures and arguments.
-/

namespace Forex

open Java Arith PrefixCode

namespace Cassandra

/-- `DTNode.toString`; the string stays `null` on an unknown feature. -/
def nodeText (jdk : Jdk) (testCond : Int) (thresholdIns : Option Forex.CandleStick) :
    Option JString :=
  match thresholdIns with
  | none => some (lit "leaf node")
  | some threshold =>
      if testCond = 0 then some (lit " time" ++ threshold.time ++ lit " ")
      else if testCond = 1 then
        some (lit " high_bid" ++ jdk.doubleToString threshold.high ++ lit " ")
      else if testCond = 2 then
        some (lit " low_bid" ++ jdk.doubleToString threshold.low ++ lit " ")
      else if testCond = 3 then
        some (lit " close_bid:" ++ jdk.doubleToString threshold.close ++ lit " ")
      else none

/-- `inOrder`. -/
def inOrder (jdk : Jdk) {D : Type} : DTNode D → JString
  | .null => lit " "
  | .node _ _ left right testCond thresholdIns =>
      inOrder jdk left ++ (nodeText jdk testCond thresholdIns).getD (lit "null") ++
        inOrder jdk right

/-- One of the loops of `RandomForest.toString`: `i`, a colon, the text of the entry. -/
def numberedLines {α : Type} (jdk : Jdk) (N : Int32) (entries : List α) (text : α → JString) :
    Except Exception JString :=
  (List.range N.toInt.toNat).foldlM (fun rf i => do
    let entry ← listGet entries i
    return rf ++ (jdk.intToString (Int32.ofNat i) ++ lit ":" ++ text entry ++ lit "\n")) []

/-- `RandomForest.toString`. -/
def forestToString (jdk : Jdk) {D : Type} (N : Int32) (rf : ForestState CandleStick D)
    (flag : Int32) : Except Exception JString :=
  if flag = 0 then numberedLines jdk N rf.trees fun tree => inOrder jdk tree.root
  else numberedLines jdk N rf.stats fun stat => jdk.doubleToString (Double.ofFraction stat)

/-- `Integer.parseInt(args[i])`. -/
def intArgument (jdk : Jdk) (args : List JString) (i : Nat) : Except Exception Int32 := do
  parseIntCell jdk (some (← argument args i))

namespace HW4

/-- What a run is given: its arguments, the table in the order of the query, and the
choices of the platform. -/
structure Run where
  args : List JString
  forex : List ForexRow
  shuffle : Nat → Shuffle
  shuffleFeatures : Nat → Shuffle
  order : IterationOrder

/-- The variables of `main` when it writes the statement. -/
structure Trained (D : Type) where
  rfid : Int32
  N : Int32
  rf : ForestState CandleStick D
  precision : Option ℚ

/-- `main` up to the statement. -/
def train (D : Type) [Arith D] (jdk : Jdk) (run : Run) : Alloc (Trained D) := do
  let rfid ← StateT.lift (intArgument jdk run.args 0)
  let loaded ← (run.forex.take 10000).foldlM loadRow ⟨[], [], 0⟩
  let N ← StateT.lift (intArgument jdk run.args 1)
  let rf ← buildForest run.shuffle run.shuffleFeatures N loaded.trainingInstances
  let predictedLabels ← classify run.order N.toInt.toNat rf.trees loaded.testingInstances
  let (matchCount, _) ←
    StateT.lift (countMatches sameLabel predictedLabels loaded.testingInstances)
  return ⟨rfid, N, rf, quotient matchCount 2000⟩

/-- The statement that `main` executes last. -/
def statement (jdk : Jdk) {D : Type} (t : Trained D) : Except Exception JString := do
  let trees ← forestToString jdk t.N t.rf 0
  let stats ← forestToString jdk t.N t.rf 1
  return lit "INSERT INTO randforest (rfid, trees, stats, n, precision) VALUES (" ++
    jdk.intToString t.rfid ++ lit ", '" ++ trees ++ lit "', '" ++ stats ++ lit "'," ++
    jdk.intToString t.N ++ lit "," ++
    jdk.doubleToString (Double.ofFraction t.precision) ++ lit ")"

/-- `HW4.main`: the statement that it executes. -/
def main (D : Type) [Arith D] (jdk : Jdk) (run : Run) : Alloc JString := do
  let t ← train D jdk run
  StateT.lift (statement jdk t)

end HW4

section Lines

variable {jdk : Jdk}

/-- The line of an entry, without its end. -/
def lineOf (jdk : Jdk) (entry : JString × Nat) : JString :=
  jdk.intToString (Int32.ofNat entry.2) ++ lit ":" ++ entry.1

/-- The lines of the entries. -/
def linesOf (jdk : Jdk) (entries : List JString) : JString :=
  entries.zipIdx.flatMap fun entry => lineOf jdk entry ++ lit "\n"

/-- A further entry is a further line, numbered by the entries before it. -/
theorem linesOf_concat (entries : List JString) (entry : JString) :
    linesOf jdk (entries ++ [entry]) =
      linesOf jdk entries ++ (lineOf jdk (entry, entries.length) ++ lit "\n") := by
  rw [linesOf, List.zipIdx_append, List.flatMap_append]
  simp [linesOf]

/-- A loop of `toString` writes one line for each entry. -/
theorem numberedLines_eq {α : Type} {N : Int32} {entries : List α}
    (hlength : entries.length = N.toInt.toNat) (text : α → JString) :
    numberedLines jdk N entries text = .ok (linesOf jdk (entries.map text)) := by
  have hloop : ∀ k ≤ entries.length,
      (List.range k).foldlM (fun rf i => do
          let entry ← listGet entries i
          return rf ++ (jdk.intToString (Int32.ofNat i) ++ lit ":" ++ text entry ++ lit "\n"))
        [] = (.ok (linesOf jdk ((entries.take k).map text)) : Except Exception JString) := by
    intro k hk
    induction k with
    | zero => rfl
    | succ k ih =>
        have hlt : k < entries.length := hk
        rw [List.range_succ, List.foldlM_append, ih hlt.le, ok_bind, List.foldlM_cons,
          listGet_of_lt hlt, List.take_succ_eq_append_getElem hlt, List.map_append,
          List.map_singleton, linesOf_concat, List.length_map, List.length_take_of_le hlt.le]
        rfl
  have hall := hloop entries.length le_rfl
  rw [List.take_length] at hall
  rw [numberedLines, ← hlength]
  exact hall

/-- The line feed. -/
def lineFeed : JChar := 10

/-- The quote that opens and closes a text. -/
def quote : JChar := 39

/-- A character that numbers do not use, and that is neither the colon nor in the
entry, is not in the line of the entry. -/
theorem notMem_lineOf (hplain : jdk.PlainText) {c : JChar} (hc : isPlain c = false)
    (hcolon : c ∉ lit ":") {entry : JString × Nat} (h : c ∉ entry.1) : c ∉ lineOf jdk entry := by
  simp only [lineOf, List.mem_append, not_or]
  exact ⟨⟨hplain.notMem_int hc _, hcolon⟩, h⟩

/-- What occurs in no entry occurs in no line. -/
theorem notMem_linesOf (hplain : jdk.PlainText) {c : JChar} (hc : isPlain c = false)
    (hcolon : c ∉ lit ":") (hfeed : c ∉ lit "\n") {entries : List JString}
    (h : ∀ entry ∈ entries, c ∉ entry) : c ∉ linesOf jdk entries := by
  intro hmem
  obtain ⟨entry, hentry, hline⟩ := List.mem_flatMap.mp hmem
  rcases List.mem_append.mp hline with hline | hline
  · exact notMem_lineOf hplain hc hcolon (h _ (List.fst_mem_of_mem_zipIdx hentry)) hline
  · exact hfeed hline

/-- Entries that stand on one line can be read back from their lines. -/
theorem linesOf_inj (hplain : jdk.PlainText) {entries entries' : List JString}
    (h : ∀ entry ∈ entries, lineFeed ∉ entry) (h' : ∀ entry ∈ entries', lineFeed ∉ entry)
    (heq : linesOf jdk entries = linesOf jdk entries') : entries = entries' := by
  have hends : ∀ {l : List JString}, (∀ entry ∈ l, lineFeed ∉ entry) →
      ∀ line ∈ l.zipIdx.map (lineOf jdk), EndsAt (lit "\n") line := by
    intro l hl line hline
    obtain ⟨entry, hentry, rfl⟩ := List.mem_map.mp hline
    have hmem := List.fst_mem_of_mem_zipIdx hentry
    exact endsAt_of_notMem (notMem_lineOf hplain rfl (by decide) (hl _ hmem))
  have hlines : entries.zipIdx.map (lineOf jdk) = entries'.zipIdx.map (lineOf jdk) := by
    apply (delimits_mark (lit "\n")).flatMap_inj
      (fun line _ hnil => absurd (List.append_eq_nil_iff.mp hnil).2 (by decide))
      (hends h) (hends h')
    rw [List.flatMap_map, List.flatMap_map]
    exact heq
  apply List.ext_getElem?
  intro i
  have hline := congrArg (·[i]?) hlines
  simp only [List.getElem?_map, List.getElem?_zipIdx, Nat.zero_add] at hline
  -- the numbers of the lines agree, so the entries do
  cases hentry : entries[i]? with
  | none => cases hentry' : entries'[i]? with
    | none => rfl
    | some entry' => simp [hentry, hentry'] at hline
  | some entry => cases hentry' : entries'[i]? with
    | none => simp [hentry, hentry'] at hline
    | some entry' =>
        rw [hentry, hentry'] at hline
        exact congrArg some (List.append_cancel_left (Option.some.inj hline))

end Lines

/-- The nodes of this project. -/
def nodeFormat : NodeFormat where
  tag := ![lit "leaf node", lit " time", lit " high_bid", lit " low_bid", lit " close_bid:",
    lit "null"]
  closing := ![lit " ", lit "  ", lit "  ", lit "  ", lit "  ", lit " "]
  tag_free := by decide +kernel

/-- A node is written as its format says, and a node without text as `null`. -/
theorem nodeText_eq (jdk : Jdk) (testCond : Int) (thresholdIns : Option Forex.CandleStick) :
    (nodeText jdk testCond thresholdIns).getD (lit "null") ++ lit " " =
      nodeFormat.text jdk (shown testCond thresholdIns) := by
  cases thresholdIns with
  | none => rfl
  | some threshold =>
      unfold nodeText shown
      simp only
      split_ifs <;> simp only [Option.getD_some, Option.getD_none, List.append_assoc] <;> rfl

/-- The text of the nodes of a tree in order. -/
def nodesText (jdk : Jdk) (nodes : List Shown) : JString :=
  lit " " ++ nodes.flatMap (nodeFormat.text jdk)

/-- The in-order text of a tree is the text of its shown nodes. -/
theorem inOrder_eq (jdk : Jdk) {D : Type} (t : DTNode D) :
    inOrder jdk t = nodesText jdk t.shownNodes :=
  NodeFormat.inOrder_eq (nodeText_eq jdk) rfl (fun _ _ _ _ _ _ => rfl) t

/-- A time that a stored text can hold: no line feed, no quote, no two blanks in a row
and none at the end. -/
structure Storable (time : JString) : Prop where
  oneLine : lineFeed ∉ time
  unquoted : quote ∉ time
  blanks : EndsAt (lit "  ") time

/-- A node that a stored text can hold. -/
structure StorableNode (jdk : Jdk) (x : Shown) : Prop where
  closes : nodeFormat.Closes jdk x
  oneLine : lineFeed ∉ x.cellText jdk
  unquoted : quote ∉ x.cellText jdk

/-- A leaf can be stored: nothing of a candle stands in it. -/
theorem StorableNode.leaf (jdk : Jdk) : StorableNode jdk .leaf where
  closes := endsAt_nil _
  oneLine := List.not_mem_nil
  unquoted := List.not_mem_nil

/-- With a storable time all that a node can show is storable. -/
theorem storableNode_shown {jdk : Jdk} (hplain : jdk.PlainText) {testCond : Int}
    {threshold : Forex.CandleStick} (htime : Storable threshold.time) :
    StorableNode jdk (shown testCond (some threshold)) := by
  have hdouble {c : JChar} (hc : isPlain c = false) (d : Double) : c ∉ jdk.doubleToString d :=
    hplain.notMem_double hc d
  unfold shown
  simp only
  split_ifs
  · exact ⟨htime.blanks, htime.oneLine, htime.unquoted⟩
  · exact ⟨endsAt_of_notMem (hdouble rfl _), hdouble rfl _, hdouble rfl _⟩
  · exact ⟨endsAt_of_notMem (hdouble rfl _), hdouble rfl _, hdouble rfl _⟩
  · exact ⟨endsAt_of_notMem (hdouble rfl _), hdouble rfl _, hdouble rfl _⟩
  · exact ⟨endsAt_nil _, List.not_mem_nil, List.not_mem_nil⟩

/-- What occurs in no cell and in no tag does not occur in the text of the nodes. -/
theorem notMem_nodesText {jdk : Jdk} {c : JChar}
    (htags : ∀ i, c ∉ nodeFormat.tag i ∧ c ∉ nodeFormat.closing i) {nodes : List Shown}
    (hcells : ∀ x ∈ nodes, c ∉ x.cellText jdk) : c ∉ nodesText jdk nodes := by
  have hblank : c ∉ lit " " := (htags 0).2
  rw [nodesText, List.mem_append, not_or]
  refine ⟨hblank, fun hmem => ?_⟩
  obtain ⟨x, hx, htext⟩ := List.mem_flatMap.mp hmem
  simp only [NodeFormat.text, List.mem_append] at htext
  rcases htext with htext | htext | htext
  · exact (htags _).1 htext
  · exact hcells x hx htext
  · exact (htags _).2 htext

/-- What a row of the table `randforest` is about: for each tree the nodes in order
and the accuracy, and the figures of the run. -/
structure StoredForest where
  rfid : Int32
  trees : List (List Shown)
  stats : List Double
  n : Int32
  precision : Double

namespace StoredForest

/-- The statement that stores the forest. -/
def text (jdk : Jdk) (stored : StoredForest) : JString :=
  lit "INSERT INTO randforest (rfid, trees, stats, n, precision) VALUES (" ++
    jdk.intToString stored.rfid ++ lit ", '" ++
    linesOf jdk (stored.trees.map (nodesText jdk)) ++ lit "', '" ++
    linesOf jdk (stored.stats.map jdk.doubleToString) ++ lit "'," ++
    jdk.intToString stored.n ++ lit "," ++ jdk.doubleToString stored.precision ++ lit ")"

variable {jdk : Jdk}

/-- The text of the trees has neither a quote nor a line end inside a tree. -/
theorem notMem_trees {c : JChar}
    (htags : ∀ i, c ∉ nodeFormat.tag i ∧ c ∉ nodeFormat.closing i) {trees : List (List Shown)}
    (h : ∀ nodes ∈ trees, ∀ x ∈ nodes, c ∉ x.cellText jdk) :
    ∀ entry ∈ trees.map (nodesText jdk), c ∉ entry := by
  intro entry hentry
  obtain ⟨nodes, hnodes, rfl⟩ := List.mem_map.mp hentry
  exact notMem_nodesText htags (h nodes hnodes)

/-- The texts of the accuracies hold only characters of numbers. -/
theorem notMem_stats (hplain : jdk.PlainText) {c : JChar} (hc : isPlain c = false)
    (stats : List Double) : ∀ entry ∈ stats.map jdk.doubleToString, c ∉ entry := by
  intro entry hentry
  obtain ⟨d, -, rfl⟩ := List.mem_map.mp hentry
  exact hplain.notMem_double hc d

/-- Trees with storable nodes can be read back from their lines. -/
theorem trees_inj (hjdk : jdk.Lawful) (hplain : jdk.PlainText) {trees trees' : List (List Shown)}
    (h : ∀ nodes ∈ trees, ∀ x ∈ nodes, StorableNode jdk x)
    (h' : ∀ nodes ∈ trees', ∀ x ∈ nodes, StorableNode jdk x)
    (heq : linesOf jdk (trees.map (nodesText jdk)) = linesOf jdk (trees'.map (nodesText jdk))) :
    trees = trees' := by
  have htags : ∀ i, lineFeed ∉ nodeFormat.tag i ∧ lineFeed ∉ nodeFormat.closing i := by
    decide +kernel
  have htexts := linesOf_inj hplain
    (notMem_trees htags fun nodes hnodes x hx => (h nodes hnodes x hx).oneLine)
    (notMem_trees htags fun nodes hnodes x hx => (h' nodes hnodes x hx).oneLine) heq
  have hlength : trees.length = trees'.length := by
    simpa using congrArg List.length htexts
  apply List.ext_getElem hlength
  intro i hi hi'
  have htext : nodesText jdk trees[i] = nodesText jdk trees'[i] := by
    have hget := congrArg (·[i]?) htexts
    simpa [hi, hi'] using hget
  exact (NodeFormat.flatMap_text_inj hjdk
    (fun x hx => (h _ (List.getElem_mem hi) x hx).closes)
    (fun x hx => (h' _ (List.getElem_mem hi') x hx).closes)).mp (List.append_cancel_left htext)

theorem stats_inj (hjdk : jdk.Lawful) (hplain : jdk.PlainText) {stats stats' : List Double}
    (heq : linesOf jdk (stats.map jdk.doubleToString) =
      linesOf jdk (stats'.map jdk.doubleToString)) : stats = stats' := by
  have htexts := linesOf_inj hplain (notMem_stats hplain rfl stats)
    (notMem_stats hplain rfl stats') heq
  exact List.map_injective_iff.mpr (fun _ _ => hjdk.doubleToString_inj) htexts

/-- **A statement can be read back.**  Forests with storable nodes are stored by the
same statement only if they are the same. -/
theorem text_inj (hjdk : jdk.Lawful) (hplain : jdk.PlainText) {stored stored' : StoredForest}
    (h : ∀ nodes ∈ stored.trees, ∀ x ∈ nodes, StorableNode jdk x)
    (h' : ∀ nodes ∈ stored'.trees, ∀ x ∈ nodes, StorableNode jdk x)
    (heq : stored.text jdk = stored'.text jdk) : stored = stored' := by
  have hint {mark : JString} {c : JChar} (hc : isPlain c = false) (i : Int32) :
      EndsAt (c :: mark) (jdk.intToString i) := endsAt_of_notMem (hplain.notMem_int hc i)
  have htags : ∀ i, quote ∉ nodeFormat.tag i ∧ quote ∉ nodeFormat.closing i := by
    decide +kernel
  have htrees {trees : List (List Shown)}
      (hnodes : ∀ nodes ∈ trees, ∀ x ∈ nodes, StorableNode jdk x) :
      EndsAt (lit "', '") (linesOf jdk (trees.map (nodesText jdk))) :=
    endsAt_of_notMem (notMem_linesOf hplain rfl (by decide) (by decide)
      (notMem_trees htags fun nodes hmem x hx => (hnodes nodes hmem x hx).unquoted))
  have hstats (stats : List Double) :
      EndsAt (lit "',") (linesOf jdk (stats.map jdk.doubleToString)) :=
    endsAt_of_notMem (notMem_linesOf hplain rfl (by decide) (by decide)
      (notMem_stats hplain rfl stats))
  simp only [text, List.append_assoc] at heq
  -- the parts of the statement, from front to back
  have hrest := List.append_cancel_left heq
  obtain ⟨hrfid, hrest⟩ := EndsAt.append_inj (hint rfl _) (hint rfl _) hrest
  obtain ⟨htreesEq, hrest⟩ := (htrees h).append_inj (htrees h') hrest
  obtain ⟨hstatsEq, hrest⟩ := (hstats _).append_inj (hstats _) hrest
  obtain ⟨hn, hrest⟩ := EndsAt.append_inj (hint rfl _) (hint rfl _) hrest
  have hprecision := hjdk.doubleToString_inj (List.append_cancel_right hrest)
  obtain ⟨rfid, trees, stats, n, precision⟩ := stored
  obtain ⟨rfid', trees', stats', n', precision'⟩ := stored'
  obtain rfl := hjdk.intToString_inj hrfid
  obtain rfl := trees_inj hjdk hplain h h' htreesEq
  obtain rfl := stats_inj hjdk hplain hstatsEq
  obtain rfl := hjdk.intToString_inj hn
  obtain rfl := hprecision
  rfl

end StoredForest

namespace HW4

variable {D : Type} [Arith D] {jdk : Jdk} {run : Run} {next : Nat}

/-- A run that trains has both arguments and the figures of `Cassandra.main`. -/
theorem figures_of_train {t : Trained D} {after : Nat}
    (h : train D jdk run next = .ok (t, after)) :
    intArgument jdk run.args 0 = .ok t.rfid ∧ intArgument jdk run.args 1 = .ok t.N ∧
      Cassandra.main D run.shuffle run.shuffleFeatures run.order t.N run.forex next =
        .ok (⟨t.rf.stats, t.precision⟩, after) ∧
      ∃ loaded middle trained,
        (run.forex.take 10000).foldlM loadRow ⟨[], [], 0⟩ next = .ok (loaded, middle) ∧
        buildForest run.shuffle run.shuffleFeatures t.N loaded.trainingInstances middle =
          .ok (t.rf, trained) := by
  obtain ⟨rfid, start, hfirst, h⟩ := alloc_bind_eq_ok h
  obtain ⟨hrfid, rfl⟩ := alloc_lift_eq_ok hfirst
  obtain ⟨loaded, middle, hload, h⟩ := alloc_bind_eq_ok h
  obtain ⟨N, middle', hsecond, h⟩ := alloc_bind_eq_ok h
  obtain ⟨hN, rfl⟩ := alloc_lift_eq_ok hsecond
  obtain ⟨rf, trained, hforest, h⟩ := alloc_bind_eq_ok h
  obtain ⟨predictedLabels, classified, hlabels, h⟩ := alloc_bind_eq_ok h
  obtain ⟨⟨matchCount, j⟩, counted, hcounting, h⟩ := alloc_bind_eq_ok h
  obtain ⟨hcount, rfl⟩ := alloc_lift_eq_ok hcounting
  cases h
  refine ⟨hrfid, hN, ?_, loaded, middle, trained, hload, hforest⟩
  refine (alloc_bind hload).trans ?_
  refine (alloc_bind hforest).trans ?_
  refine (alloc_bind hlabels).trans ?_
  exact alloc_lift hcount

/-- With both arguments a run whose figures can be computed trains. -/
theorem train_of_figures {rfid N : Int32} (hrfid : intArgument jdk run.args 0 = .ok rfid)
    (hN : intArgument jdk run.args 1 = .ok N) {figures : Figures} {after : Nat}
    (h : Cassandra.main D run.shuffle run.shuffleFeatures run.order N run.forex next =
      .ok (figures, after)) :
    ∃ t, train D jdk run next = .ok (t, after) ∧ t.rfid = rfid ∧ t.N = N := by
  obtain ⟨loaded, middle, hload, h⟩ := alloc_bind_eq_ok h
  obtain ⟨rf, trained, hforest, h⟩ := alloc_bind_eq_ok h
  obtain ⟨predictedLabels, classified, hlabels, h⟩ := alloc_bind_eq_ok h
  obtain ⟨⟨matchCount, j⟩, counted, hcounting, h⟩ := alloc_bind_eq_ok h
  obtain ⟨hcount, rfl⟩ := alloc_lift_eq_ok hcounting
  cases h
  refine ⟨⟨rfid, N, rf, quotient matchCount 2000⟩, ?_, rfl, rfl⟩
  refine (alloc_lift hrfid).trans ?_
  refine (alloc_bind hload).trans ?_
  refine (alloc_lift hN).trans ?_
  refine (alloc_bind hforest).trans ?_
  refine (alloc_bind hlabels).trans ?_
  exact alloc_lift hcount

/-- Without trees the vote fails. -/
theorem train_trees_pos {t : Trained D} {after : Nat}
    (h : train D jdk run next = .ok (t, after)) : 0 < t.N.toInt := by
  obtain ⟨-, -, hmain, -⟩ := figures_of_train h
  obtain ⟨loaded, middle, hload, hmain⟩ := alloc_bind_eq_ok hmain
  obtain ⟨rf, trained, hforest, hmain⟩ := alloc_bind_eq_ok hmain
  obtain ⟨predictedLabels, classified, hlabels, -⟩ := alloc_bind_eq_ok hmain
  by_contra hle
  have hzero : t.N.toInt.toNat = 0 := by omega
  rw [hzero] at hlabels
  cases hlabels

/-- The trees, accuracies and precision of a run that trains. -/
theorem train_spec {t : Trained D} {after : Nat} (h : train D jdk run next = .ok (t, after)) :
    t.rf.trees = (List.range t.N.toInt.toNat).map (fun i =>
        ⟨treeOf run.shuffle run.shuffleFeatures (trainingRows run.forex) i, ⟨0, 2⟩⟩) ∧
      t.rf.stats = (List.range t.N.toInt.toNat).map
        (recordedAccuracy run.shuffle run.shuffleFeatures D (trainingRows run.forex)) ∧
      ∃ c ≤ 2000, t.precision = quotient c 2000 := by
  have hN := train_trees_pos h
  obtain ⟨-, -, hmain, loaded, middle, trained, hload, hforest⟩ := figures_of_train h
  have hone : (resultSet run.forex).length ≠ 1 := fun hone =>
    main_fails run.shuffle run.shuffleFeatures run.order t.N hN hone next _ hmain
  obtain ⟨candles, loadedNext, hload', hvalues, hbefore⟩ := load_spec (run.forex.take 10000) next
  cases hload.symm.trans hload'
  have htraining : (candles.take 8000).map CandleStick.values = trainingRows run.forex := by
    rw [List.map_take, hvalues]
    rfl
  have hlength : candles.length = (resultSet run.forex).length := by
    rw [← List.length_map CandleStick.values, hvalues]
    rfl
  have hsize : (candles.take 8000).length ≠ 1 ∧ (candles.take 8000).length < 2 ^ 30 := by
    rw [List.length_take]
    omega
  obtain ⟨built, hforest', -⟩ := buildForest_spec (D := D) run.shuffle run.shuffleFeatures t.N
    hsize.1 hsize.2 fun cs hcs => hbefore cs (List.mem_of_mem_take hcs)
  have hrf := (Prod.mk.inj (Except.ok.inj (hforest.symm.trans hforest'))).1
  obtain ⟨elected, final, -, helected, hmain'⟩ :=
    main_spec (D := D) run.shuffle run.shuffleFeatures run.order t.N hN hone next
  have hfigures := (Prod.mk.inj (Except.ok.inj (hmain.symm.trans hmain'))).1
  obtain ⟨hstats, hprecision⟩ := Figures.mk.inj hfigures
  refine ⟨?_, hstats, _, ?_, hprecision⟩
  · rw [hrf, stateAfter, htraining]
  · refine List.countP_le_length.trans ?_
    rw [List.length_zip, helected, min_self, testingRows, List.length_drop, ← hlength]
    have hlimit : candles.length ≤ 10000 := by
      rw [hlength, resultSet, List.length_map, List.length_take]
      exact min_le_left _ _
    omega

/-- What a run stores. -/
def Trained.stored (t : Trained D) : StoredForest where
  rfid := t.rfid
  trees := t.rf.trees.map fun tree => tree.root.shownNodes
  stats := t.rf.stats.map Double.ofFraction
  n := t.N
  precision := Double.ofFraction t.precision

/-- The statement of a run is the text of what it stores. -/
theorem statement_spec {t : Trained D} {after : Nat} (h : train D jdk run next = .ok (t, after)) :
    statement jdk t = .ok (t.stored.text jdk) := by
  obtain ⟨htrees, hstats, -⟩ := train_spec h
  have htreesLength : t.rf.trees.length = t.N.toInt.toNat := by
    rw [htrees, List.length_map, List.length_range]
  have hstatsLength : t.rf.stats.length = t.N.toInt.toNat := by
    rw [hstats, List.length_map, List.length_range]
  have htreeTexts : t.rf.trees.map (fun tree => inOrder jdk tree.root) =
      t.stored.trees.map (nodesText jdk) := by
    rw [Trained.stored, List.map_map]
    exact List.map_congr_left fun tree _ => inOrder_eq jdk tree.root
  have hstatTexts : t.rf.stats.map (fun stat => jdk.doubleToString (Double.ofFraction stat)) =
      t.stored.stats.map jdk.doubleToString := by
    rw [Trained.stored, List.map_map]
    rfl
  rw [statement, forestToString, forestToString, if_pos rfl, if_neg (by decide),
    numberedLines_eq htreesLength, numberedLines_eq hstatsLength, htreeTexts, hstatTexts]
  rfl

/-- The training rows are candles of the table. -/
theorem storable_trainingRows (htimes : ∀ row ∈ run.forex, Storable row.time) :
    ∀ cs ∈ trainingRows run.forex, Storable cs.time := by
  intro cs hcs
  obtain ⟨row, hrow, rfl⟩ := List.mem_map.mp (List.mem_of_mem_take hcs)
  exact htimes row (List.mem_of_mem_take hrow)

/-- With storable times every node of every tree can be stored. -/
theorem storable_trees (hplain : jdk.PlainText) (htimes : ∀ row ∈ run.forex, Storable row.time)
    {t : Trained D} {after : Nat} (h : train D jdk run next = .ok (t, after)) :
    ∀ nodes ∈ t.stored.trees, ∀ x ∈ nodes, StorableNode jdk x := by
  intro nodes hnodes x hx
  obtain ⟨htrees, -⟩ := train_spec h
  obtain ⟨tree, htree, rfl⟩ := List.mem_map.mp hnodes
  rw [htrees] at htree
  obtain ⟨i, -, rfl⟩ := List.mem_map.mp htree
  obtain rfl | ⟨testCond, threshold, hmem, rfl⟩ := DTNode.shown_of_mem_growTree hx
  · exact StorableNode.leaf jdk
  · have hrow := (afterShuffles_perm run.shuffle _ (i + 1)).mem_iff.mp (List.mem_of_mem_take hmem)
    exact storableNode_shown hplain (storable_trainingRows htimes threshold hrow)

/-- The nodes that are stored say no more than the tests. -/
theorem storedTrees_eq {t : Trained D} {after : Nat} (h : train D jdk run next = .ok (t, after)) :
    t.stored.trees = (t.rf.trees.map fun tree => tree.root.tests).map
      fun tests => .leaf :: tests.flatMap fun x => [x, .leaf] := by
  obtain ⟨htrees, -⟩ := train_spec h
  rw [Trained.stored, List.map_map]
  apply List.map_congr_left
  intro tree htree
  rw [htrees] at htree
  obtain ⟨i, -, rfl⟩ := List.mem_map.mp htree
  exact (grown_growTree calcEntropy _ _ _).wellSplit.shownNodes_eq

omit [Arith D] in
/-- What is stored of the trees, leaves aside, are their tests. -/
theorem tests_eq (t : Trained D) : t.rf.trees.map (fun tree => tree.root.tests) =
    t.stored.trees.map fun nodes => nodes.filter (· ≠ .leaf) := by
  rw [Trained.stored, List.map_map]
  rfl

/-- The accuracies of a run are quotients of small counters. -/
theorem stats_small {t : Trained D} {after : Nat} (h : train D jdk run next = .ok (t, after)) :
    ∀ stat ∈ t.rf.stats, ∃ m n, m ≤ n ∧ n < 2 ^ 26 ∧ stat = quotient m n := by
  intro stat hstat
  obtain ⟨-, hstats, -⟩ := train_spec h
  rw [hstats] at hstat
  obtain ⟨i, -, rfl⟩ := List.mem_map.mp hstat
  refine ⟨_, _, List.countP_le_length, ?_, rfl⟩
  rw [RandomForest.heldOut, List.length_drop, length_afterShuffles, trainingRows, List.length_take]
  omega

/-- Small accuracies are told by their doubles. -/
theorem stats_inj {stats stats' : List (Option ℚ)}
    (h : ∀ stat ∈ stats, ∃ m n, m ≤ n ∧ n < 2 ^ 26 ∧ stat = quotient m n)
    (h' : ∀ stat ∈ stats', ∃ m n, m ≤ n ∧ n < 2 ^ 26 ∧ stat = quotient m n)
    (heq : stats.map Double.ofFraction = stats'.map Double.ofFraction) : stats = stats' := by
  induction stats generalizing stats' with
  | nil => exact (List.map_eq_nil_iff.mp heq.symm).symm
  | cons stat stats ih =>
      cases stats' with
      | nil => exact absurd heq (List.cons_ne_nil _ _)
      | cons stat' stats' =>
          obtain ⟨hhead, htail⟩ := List.cons.inj heq
          obtain ⟨m, n, hmn, hn, rfl⟩ := h stat List.mem_cons_self
          obtain ⟨m', n', hmn', hn', rfl⟩ := h' stat' List.mem_cons_self
          rw [ofFraction_quotient_inj hmn hmn' hn hn' hhead,
            ih (fun a ha => h a (List.mem_cons_of_mem _ ha))
              (fun a ha => h' a (List.mem_cons_of_mem _ ha)) htail]

/-- **What the stored row shows.**  If the times of the tables can be stored, two runs
that train execute a statement each, and the same one exactly if they have the same
arguments, the same accuracies and precision, and trees with the same tests from left to
right. -/
theorem main_statement_eq_iff (hjdk : jdk.Lawful) (hplain : jdk.PlainText)
    {D' : Type} [Arith D'] {run' : Run} {next' : Nat}
    (htimes : ∀ row ∈ run.forex ++ run'.forex, Storable row.time)
    {t : Trained D} {t' : Trained D'} {after after' : Nat}
    (h : train D jdk run next = .ok (t, after)) (h' : train D' jdk run' next' = .ok (t', after')) :
    ∃ executed executed',
      main D jdk run next = .ok (executed, after) ∧
      main D' jdk run' next' = .ok (executed', after') ∧
      (executed = executed' ↔
        t.rfid = t'.rfid ∧ t.N = t'.N ∧
          t.rf.trees.map (fun tree => tree.root.tests) =
            t'.rf.trees.map (fun tree => tree.root.tests) ∧
          t.rf.stats = t'.rf.stats ∧ t.precision = t'.precision) := by
  have hstorable := storable_trees hplain
    (fun row hrow => htimes row (List.mem_append_left _ hrow)) h
  have hstorable' := storable_trees hplain
    (fun row hrow => htimes row (List.mem_append_right _ hrow)) h'
  refine ⟨t.stored.text jdk, t'.stored.text jdk, ?_, ?_, ?_⟩
  · exact (alloc_bind h).trans (by rw [statement_spec h]; rfl)
  · exact (alloc_bind h').trans (by rw [statement_spec h']; rfl)
  constructor
  · intro hsame
    have hstored := StoredForest.text_inj hjdk hplain hstorable hstorable' hsame
    obtain ⟨hrfid, htrees, hstats, hN, hprecision⟩ := StoredForest.mk.inj hstored
    obtain ⟨-, -, c, hc, hquotient⟩ := train_spec h
    obtain ⟨-, -, c', hc', hquotient'⟩ := train_spec h'
    refine ⟨hrfid, hN, ?_, stats_inj (stats_small h) (stats_small h') hstats, ?_⟩
    · rw [tests_eq, tests_eq]
      exact congrArg _ htrees
    · rw [hquotient, hquotient'] at hprecision ⊢
      exact ofFraction_quotient_inj hc hc' (by norm_num) (by norm_num) hprecision
  · intro hall
    obtain ⟨hrfid, hN, htests, hstats, hprecision⟩ := hall
    have htrees : t.stored.trees = t'.stored.trees := by
      rw [storedTrees_eq h, storedTrees_eq h', htests]
    simp only [Trained.stored] at htrees
    simp only [Trained.stored, hrfid, htrees, hstats, hN, hprecision]

/-- A run over two rows, with the identifier as given. -/
def twoRows (rfid : JString) : Run where
  args := [rfid, lit "1"]
  forex := [rowLabelled 1, rowLabelled (-1)]
  shuffle := fun _ _ => 1
  shuffleFeatures := fun _ _ => 1
  order := fun _ => fun _ => 1

theorem twoRows_trains {rfid : JString} {id : Int32}
    (hrfid : intArgument Jdk.sample (twoRows rfid).args 0 = .ok id) :
    ∃ t after, train Exact Jdk.sample (twoRows rfid) 0 = .ok (t, after) ∧ t.rfid = id := by
  have hone : (resultSet (twoRows rfid).forex).length ≠ 1 := by
    change (resultSet [rowLabelled 1, rowLabelled (-1)]).length ≠ 1
    decide
  have hN : intArgument Jdk.sample (twoRows rfid).args 1 = .ok 1 := by rfl
  obtain ⟨elected, after, -, -, hmain⟩ := main_spec (D := Exact) (twoRows rfid).shuffle
    (twoRows rfid).shuffleFeatures (twoRows rfid).order 1 (by decide) hone 0
  obtain ⟨t, htrain, hid, -⟩ := train_of_figures hrfid hN hmain
  exact ⟨t, after, htrain, hid⟩

/-- Runs that differ in their first argument execute different statements. -/
theorem main_statement_eq_iff_twoRows : ∃ executed executed' after after',
    main Exact Jdk.sample (twoRows (lit "1")) 0 = .ok (executed, after) ∧
    main Exact Jdk.sample (twoRows (lit "2")) 0 = .ok (executed', after') ∧
    executed ≠ executed' := by
  have htimes : ∀ row ∈ (twoRows (lit "1")).forex ++ (twoRows (lit "2")).forex,
      Storable row.time := by
    intro row hrow
    have htime : row.time = lit "20150803 16:35" := by
      simp only [twoRows, rowLabelled, List.cons_append, List.nil_append, List.mem_cons,
        List.not_mem_nil, or_false] at hrow
      rcases hrow with rfl | rfl | rfl | rfl <;> rfl
    rw [htime]
    exact ⟨by decide, by decide, by decide +kernel⟩
  have hfirst : intArgument Jdk.sample (twoRows (lit "1")).args 0 = .ok 1 := by rfl
  have hsecond : intArgument Jdk.sample (twoRows (lit "2")).args 0 = .ok 2 := by rfl
  obtain ⟨t, after, htrain, hid⟩ := twoRows_trains hfirst
  obtain ⟨t', after', htrain', hid'⟩ := twoRows_trains hsecond
  obtain ⟨executed, executed', hmain, hmain', hiff⟩ := main_statement_eq_iff Jdk.sample_lawful
    Jdk.sample_plainText htimes htrain htrain'
  refine ⟨executed, executed', after, after', hmain, hmain', fun hsame => ?_⟩
  have hsameId := (hiff.mp hsame).1
  rw [hid, hid'] at hsameId
  exact absurd hsameId (by decide)

end HW4

end Cassandra

end Forex
