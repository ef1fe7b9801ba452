import ForexForest.PrefixCode
import ForexForest.StoredModel

/-!
# What the stored texts show

Two of the projects store the trees they trained as text, and both write the nodes
in order.  The texts of the nodes are self-delimiting, so the text of a tree shows
exactly what its nodes show from left to right (`NodeFormat.flatMap_text_inj`).  In
order a grown tree alternates between leaves and tests, so that its tests from left
to right are all there is (`DTNode.WellSplit.shownNodes_eq_iff`); `toJSON_eq_iff`
states this of the models that the map-reduce project stores.
-/

namespace Java

/-- The characters in the text of a number. -/
def isPlain (c : JChar) : Bool :=
  c.val = 45 ∨ c.val = 46 ∨ (48 ≤ c.val ∧ c.val ≤ 57) ∨ (65 ≤ c.val ∧ c.val ≤ 90) ∨
    (97 ≤ c.val ∧ c.val ≤ 122)

/-- Numbers are written with digits, letters, the minus sign and the point. -/
structure Jdk.PlainText (jdk : Jdk) : Prop where
  double_chars : ∀ d, ∀ c ∈ jdk.doubleToString d, isPlain c = true
  int_chars : ∀ i, ∀ c ∈ jdk.intToString i, isPlain c = true

namespace Jdk.PlainText

variable {jdk : Jdk}

/-- A character that numbers do not use is in the text of no double. -/
theorem notMem_double (h : jdk.PlainText) {c : JChar} (hc : isPlain c = false) (d : Double) :
    c ∉ jdk.doubleToString d := by
  intro hmem
  rw [h.double_chars d c hmem] at hc
  cases hc

/-- It is in the text of no integer either. -/
theorem notMem_int (h : jdk.PlainText) {c : JChar} (hc : isPlain c = false) (i : Int32) :
    c ∉ jdk.intToString i := by
  intro hmem
  rw [h.int_chars i c hmem] at hc
  cases hc

end Jdk.PlainText

/-- Digits are among the characters of numbers. -/
theorem isPlain_digits {n : Nat} {c : JChar} (hc : c ∈ digits n) : isPlain c = true := by
  have hrange := mem_digits hc
  grind [isPlain]

/-- What is documented of the characters can be met. -/
theorem Jdk.sample_plainText : Jdk.sample.PlainText where
  double_chars := by
    intro d c hc
    have htable : ∀ e ∈ Double.samplePrices, e.2.all isPlain := by decide +kernel
    change c ∈ Double.sampleText d at hc
    unfold Double.sampleText at hc
    split at hc
    · rename_i entry hfind
      have hentry := htable entry (List.mem_of_find?_eq_some hfind)
      exact List.all_eq_true.mp hentry c hc
    · rcases List.mem_cons.mp hc with rfl | hc
      · cases d.neg <;> decide
      · exact isPlain_digits hc
  int_chars := by
    intro i c hc
    change c ∈ decimalInt i at hc
    unfold decimalInt at hc
    split at hc
    · rcases List.mem_append.mp hc with hc | hc
      · rw [lit_minus, List.mem_singleton] at hc
        rw [hc]
        decide
      · exact isPlain_digits hc
    · exact isPlain_digits hc

end Java

namespace Forex

open Java Arith PrefixCode

/-- What the text of a node shows of it. -/
inductive Shown where
  | leaf
  | time (text : JString)
  | high (price : Double)
  | low (price : Double)
  | close (price : Double)
  | unknown
deriving DecidableEq

/-- What there is to show of a node. -/
def shown (testCond : Int) (thresholdIns : Option CandleStick) : Shown :=
  match thresholdIns with
  | none => .leaf
  | some threshold =>
      if testCond = 0 then .time threshold.time
      else if testCond = 1 then .high threshold.high
      else if testCond = 2 then .low threshold.low
      else if testCond = 3 then .close threshold.close
      else .unknown

namespace DTNode

variable {D : Type}

/-- What the nodes show, in order. -/
def shownNodes : DTNode D → List Shown
  | .null => []
  | .node _ _ left right testCond thresholdIns =>
      left.shownNodes ++ shown testCond thresholdIns :: right.shownNodes

/-- What the tests show, from left to right. -/
def tests (t : DTNode D) : List Shown := t.shownNodes.filter (· ≠ .leaf)

end DTNode

/-- A node with a threshold is never shown as a leaf, whatever its test. -/
theorem shown_ne_leaf (testCond : Int) (threshold : CandleStick) :
    shown testCond (some threshold) ≠ .leaf := by
  unfold shown
  simp only
  split_ifs <;> exact Shown.noConfusion

namespace DTNode

variable {D : Type}

/-- The tests of an inner node stand between those of its subtrees. -/
theorem tests_inner {instances : List CandleStick} {entropy : D} {left right : DTNode D}
    {testCond : Int} {threshold : CandleStick} :
    (DTNode.node instances entropy left right testCond (some threshold)).tests =
      left.tests ++ shown testCond (some threshold) :: right.tests := by
  have hkeep : (decide (shown testCond (some threshold) ≠ .leaf)) = true :=
    decide_eq_true (shown_ne_leaf testCond threshold)
  simp only [tests, shownNodes, List.filter_append, List.filter_cons, hkeep, if_true]

/-- In order a well split tree alternates between leaves and tests. -/
theorem WellSplit.shownNodes_eq {t : DTNode D} (h : WellSplit t) :
    t.shownNodes = .leaf :: t.tests.flatMap fun x => [x, .leaf] := by
  induction h with
  | leaf => rfl
  | inner _ _ _ _ _ ihleft ihright =>
      rw [tests_inner, shownNodes, ihleft, ihright, List.flatMap_append, List.flatMap_cons]
      rfl

/-- The nodes in order say no more than the tests in order. -/
theorem WellSplit.shownNodes_eq_iff {D' : Type} {t : DTNode D} {t' : DTNode D'}
    (h : WellSplit t) (h' : WellSplit t') :
    t.shownNodes = t'.shownNodes ↔ t.tests = t'.tests := by
  constructor
  · intro heq
    rw [tests, tests, heq]
  · intro heq
    rw [h.shownNodes_eq, h'.shownNodes_eq, heq]

/-- A node of a grown tree is a leaf or shows a cell of an instance. -/
theorem shown_of_mem_growTree [Arith D] {entropyOf : List CandleStick → D} {stopsAtOne : Bool}
    {featureIdx : List Int} {instances : List CandleStick} {x : Shown}
    (hx : x ∈ (growTree entropyOf stopsAtOne featureIdx instances).shownNodes) :
    x = .leaf ∨ ∃ testCond, ∃ threshold ∈ instances, x = shown testCond (some threshold) := by
  have hgrown := grown_growTree entropyOf stopsAtOne featureIdx instances
  generalize growTree entropyOf stopsAtOne featureIdx instances = t at hx hgrown
  induction hgrown with
  | pure => exact Or.inl (List.mem_singleton.mp hx)
  | exhausted => exact Or.inl (List.mem_singleton.mp hx)
  | @split instances c left right _ hc _ _ _ _ ihleft ihright =>
      have hperm := (mem_cuts hc).2.1
      rcases List.mem_append.mp hx with hx | hx
      · refine (ihleft hx).imp_right ?_
        intro hex
        obtain ⟨testCond, threshold, hmem, rfl⟩ := hex
        exact ⟨testCond, threshold, hperm.mem_iff.mp (List.mem_of_mem_take hmem), rfl⟩
      rcases List.mem_cons.mp hx with rfl | hx
      · obtain ⟨threshold, rest, hthreshold, hright⟩ := Cut.threshold_eq_head hc
        have hmem : threshold ∈ c.right := hright ▸ List.mem_cons_self
        rw [hthreshold]
        exact Or.inr ⟨c.attr, threshold, hperm.mem_iff.mp (List.mem_of_mem_drop hmem), rfl⟩
      · refine (ihright hx).imp_right ?_
        intro hex
        obtain ⟨testCond, threshold, hmem, rfl⟩ := hex
        exact ⟨testCond, threshold, hperm.mem_iff.mp (List.mem_of_mem_drop hmem), rfl⟩

end DTNode

namespace Shown

/-- Which of the texts it is. -/
def kind : Shown → Fin 6
  | .leaf => 0
  | .time _ => 1
  | .high _ => 2
  | .low _ => 3
  | .close _ => 4
  | .unknown => 5

/-- The text of the cell. -/
def cellText (jdk : Jdk) : Shown → JString
  | .leaf => []
  | .time text => text
  | .high price => jdk.doubleToString price
  | .low price => jdk.doubleToString price
  | .close price => jdk.doubleToString price
  | .unknown => []

/-- Among the nodes of one kind the cell's text tells the node. -/
theorem cellText_inj {jdk : Jdk} (hjdk : jdk.Lawful) {x y : Shown} (hkind : x.kind = y.kind)
    (htext : x.cellText jdk = y.cellText jdk) : x = y := by
  cases x <;> cases y <;> simp only [kind, cellText] at hkind htext <;>
    grind [Jdk.Lawful.doubleToString_inj]

end Shown

/-- How a project writes a node: the tag of its kind, the cell, and what closes the
kind, with the blank that follows every node. -/
structure NodeFormat where
  tag : Fin 6 → JString
  closing : Fin 6 → JString
  tag_free : ∀ i j, tag i <+: tag j → i = j

namespace NodeFormat

variable (format : NodeFormat) (jdk : Jdk)

/-- The text of a node and the blank after it. -/
def text (x : Shown) : JString := format.tag x.kind ++ (x.cellText jdk ++ format.closing x.kind)

/-- The cell does not contain what closes it. -/
def Closes (x : Shown) : Prop := EndsAt (format.closing x.kind) (x.cellText jdk)

variable {format jdk}

/-- Every shown node has some text: an empty tag would begin every other tag. -/
theorem text_ne_nil (x : Shown) : format.text jdk x ≠ [] := by
  intro hnil
  have htag : format.tag x.kind = [] := (List.append_eq_nil_iff.mp hnil).1
  have hbegins (i : Fin 6) : format.tag x.kind <+: format.tag i := by
    rw [htag]
    exact List.nil_prefix
  have hzero := format.tag_free _ _ (hbegins 0)
  have hone := format.tag_free _ _ (hbegins 1)
  rw [hzero] at hone
  exact absurd hone (by decide)

/-- A sequence of nodes can be read back from its text. -/
theorem flatMap_text_inj (hjdk : jdk.Lawful) {l l' : List Shown}
    (hl : ∀ x ∈ l, format.Closes jdk x) (hl' : ∀ x ∈ l', format.Closes jdk x) :
    l.flatMap (format.text jdk) = l'.flatMap (format.text jdk) ↔ l = l' := by
  have hdelimits : Delimits (format.text jdk) (format.Closes jdk) :=
    Delimits.framed format.tag_free (fun _ _ => Shown.cellText_inj hjdk) fun _ hx => hx
  constructor
  · exact hdelimits.flatMap_inj (fun x _ => text_ne_nil x) hl hl'
  · exact congrArg _

variable {D : Type}

/-- An in-order text is a blank and the nodes in order. -/
theorem inOrder_eq {nodeText : Int → Option CandleStick → JString} {inOrder : DTNode D → JString}
    (htext : ∀ testCond thresholdIns, nodeText testCond thresholdIns ++ lit " " =
      format.text jdk (shown testCond thresholdIns))
    (hnull : inOrder .null = lit " ")
    (hnode : ∀ instances entropy left right testCond thresholdIns,
      inOrder (.node instances entropy left right testCond thresholdIns) =
        inOrder left ++ nodeText testCond thresholdIns ++ inOrder right) (t : DTNode D) :
    inOrder t = lit " " ++ t.shownNodes.flatMap (format.text jdk) := by
  induction t with
  | null => rw [hnull, DTNode.shownNodes, List.flatMap_nil, List.append_nil]
  | node instances entropy left right testCond thresholdIns ihleft ihright =>
      rw [hnode, ihleft, ihright, DTNode.shownNodes, List.flatMap_append, List.flatMap_cons,
        ← htext]
      simp only [List.append_assoc]

end NodeFormat

namespace MapReduce

/-- The nodes of the map-reduce project. -/
def nodeFormat : NodeFormat where
  tag := ![lit "[]", lit "[time|", lit "[high|", lit "[low|", lit "[close|", lit "null"]
  closing := ![lit " ", lit "] ", lit "] ", lit "] ", lit "] ", lit " "]
  tag_free := by decide +kernel

theorem nodeText_eq (jdk : Jdk) (testCond : Int) (thresholdIns : Option CandleStick) :
    (nodeText jdk testCond thresholdIns).getD (lit "null") ++ lit " " =
      nodeFormat.text jdk (shown testCond thresholdIns) := by
  cases thresholdIns with
  | none => rfl
  | some threshold =>
      unfold nodeText shown
      simp only
      split_ifs <;> simp only [Option.getD_some, Option.getD_none, List.append_assoc] <;> rfl

theorem inOrder_eq (jdk : Jdk) {D : Type} (t : DTNode D) :
    inOrder jdk t = lit " " ++ t.shownNodes.flatMap (nodeFormat.text jdk) :=
  NodeFormat.inOrder_eq (nodeText_eq jdk) rfl (fun _ _ _ _ _ _ => rfl) t

/-- The bracket that closes a node. -/
def bracket : JChar := 93

/-- Without a closing bracket in the time a node can be read back. -/
theorem nodeFormat_closes {jdk : Jdk} (hplain : jdk.PlainText) {testCond : Int}
    {threshold : CandleStick} (htime : bracket ∉ threshold.time) :
    nodeFormat.Closes jdk (shown testCond (some threshold)) := by
  have hdouble (d : Double) : bracket ∉ jdk.doubleToString d := hplain.notMem_double rfl d
  unfold shown
  simp only
  split_ifs
  · exact endsAt_of_notMem htime
  · exact endsAt_of_notMem (hdouble _)
  · exact endsAt_of_notMem (hdouble _)
  · exact endsAt_of_notMem (hdouble _)
  · exact endsAt_nil _

/-- Every node of a grown tree can be read back. -/
theorem closes_of_mem {jdk : Jdk} (hplain : jdk.PlainText) (D : Type) [Arith D]
    (featureIdx : List Int) {instances : List CandleStick}
    (htimes : ∀ cs ∈ instances, bracket ∉ cs.time) :
    ∀ x ∈ (buildDTree featureIdx instances : DTNode D).shownNodes, nodeFormat.Closes jdk x := by
  intro x hx
  obtain rfl | ⟨testCond, threshold, hmem, rfl⟩ := DTNode.shown_of_mem_growTree hx
  · exact endsAt_nil _
  · exact nodeFormat_closes hplain (htimes threshold hmem)

end MapReduce

namespace DecisionTree

/-- `setPrecision`. -/
def setPrecision {D : Type} (this : DecisionTree D) (d : Double) : DecisionTree D :=
  { this with precision := d }

/-- **What a stored model shows.**  If no time contains a closing bracket, two
trained models are stored alike exactly if they have the same precision, the same
features and the same tests from left to right. -/
theorem toJSON_eq_iff {jdk : Jdk} (hjdk : jdk.Lawful) (hplain : jdk.PlainText)
    {D D' : Type} [Arith D] [Arith D'] {featureIdx featureIdx' : List Int}
    {instances instances' : List CandleStick}
    (htimes : ∀ cs ∈ instances ++ instances', MapReduce.bracket ∉ cs.time)
    (precision precision' : Double) :
    ((train instances featureIdx : DecisionTree D).setPrecision precision).toJSON jdk =
        ((train instances' featureIdx' : DecisionTree D').setPrecision precision').toJSON jdk ↔
      precision = precision' ∧ featureIdx = featureIdx' ∧
        (train instances featureIdx : DecisionTree D).root.tests =
          (train instances' featureIdx' : DecisionTree D').root.tests := by
  have hclosed := MapReduce.closes_of_mem hplain D featureIdx
    fun cs hcs => htimes cs (List.mem_append_left _ hcs)
  have hclosed' := MapReduce.closes_of_mem hplain D' featureIdx'
    fun cs hcs => htimes cs (List.mem_append_right _ hcs)
  have hsplit := (grown_growTree (calcEntropy : List CandleStick → D) true featureIdx
    instances).wellSplit
  have hsplit' := (grown_growTree (calcEntropy : List CandleStick → D') true featureIdx'
    instances').wellSplit
  have hnodes := (NodeFormat.flatMap_text_inj hjdk hclosed hclosed').trans
    (hsplit.shownNodes_eq_iff hsplit')
  rw [toJSON, toJSON, ModelJson.mk.injEq, MapReduce.inOrder_eq, MapReduce.inOrder_eq,
    List.append_cancel_left_eq]
  constructor
  · intro h
    obtain ⟨hprecision, hfeatures, htext⟩ := h
    exact ⟨hprecision, hfeatures, hnodes.mp htext⟩
  · intro h
    obtain ⟨hprecision, hfeatures, htests⟩ := h
    exact ⟨hprecision, hfeatures, hnodes.mpr htests⟩

/-- Models of the same two candles on other features are stored differently. -/
theorem toJSON_eq_iff_twoCandles :
    ((train [fallingCandle, risingCandle] [0, 1] : DecisionTree Exact).setPrecision
        Double.one).toJSON Jdk.sample ≠
      ((train [fallingCandle, risingCandle] [1, 2] : DecisionTree Exact).setPrecision
        Double.one).toJSON Jdk.sample := by
  intro hsame
  have htimes : ∀ cs ∈ [fallingCandle, risingCandle] ++ [fallingCandle, risingCandle],
      MapReduce.bracket ∉ cs.time := by decide +kernel
  have hiff := (toJSON_eq_iff Jdk.sample_lawful Jdk.sample_plainText htimes Double.one
    Double.one).mp hsame
  exact absurd hiff.2.1 (by decide)

end DecisionTree

end Forex
