import CallAtlas.Proofs.Drawing.ExternalClasses
import CallAtlas.Proofs.Report.Owners

/-!
# Calls between classes, counted

Calls between two classes are counted by pairs of classes, and the counts of the pairs are added up class by
class. A table lists the pairs and the classes in any order, and a sort may do as it likes with elements that
are tied: `chartWith` draws with all of this left to choice. No choice makes a difference (`chartWith_eq`), as
neither ranking nor pairs leave anything tied. Counting twice loses nothing: what is counted for all pairs
together is every call once (`sum_pairCounts`).

How a chart follows from the calls is said without tables (`Chart.Aggregates`), and how a drawing shows it
without the code that draws (`Chart.ShownBy`): nodes, edges and labels are those of the chart
(`classDrawing_conserves`).
-/

namespace CallAtlas

/-! ### The order of counts and pairs -/

namespace Report.Count

/-- Greater counts come first, and of equal ones the lesser name. -/
def Before (a b : Count) : Prop :=
  b.count < a.count ∨ a.count = b.count ∧ a.name < b.name

/-- `Count.le` puts greater counts first, and of equal ones the lesser name. -/
theorem le_iff {a b : Count} : le a b = true ↔ b.count < a.count ∨ a.count = b.count ∧ a.name ≤ b.name := by
  unfold le
  split
  · next heq => simp [heq]
  · next hne => simp [hne]

/-- `Count.le` is a total preorder. -/
theorem totalPreorder_le : TotalPreorder le := by
  constructor
  · intro a b c hab hbc
    rw [le_iff] at hab hbc ⊢
    -- the first difference in count decides, and the name only if there is none
    rcases hab with hab | ⟨hab, hname⟩
    · exact .inl (by omega)
    · rcases hbc with hbc | ⟨hbc, hname'⟩
      · exact .inl (by omega)
      · exact .inr ⟨hab.trans hbc, String.le_trans hname hname'⟩
  · intro a b
    rw [Bool.or_eq_true, le_iff, le_iff]
    have hname := String.le_total a.name b.name
    have hcount := Int.lt_trichotomy a.count b.count
    tauto

/-- Counts that are `tied` have one name. -/
private theorem name_eq_of_tied {a b : Count} (h : tied le a b = true) : a.name = b.name := by
  rw [tied, Bool.and_eq_true, le_iff, le_iff] at h
  obtain ⟨hab | ⟨hab, hname⟩, hba | ⟨hba, hname'⟩⟩ := h
  · omega
  · omega
  · omega
  · exact String.le_antisymm hname hname'

/-- Counts of different names that `Count.le` puts in order stand strictly `Before` each other. -/
theorem before_of_le {a b : Count} (h : le a b = true) (hne : a.name ≠ b.name) : a.Before b := by
  rcases le_iff.1 h with hlt | ⟨heq, hname⟩
  · exact .inl hlt
  · exact .inr ⟨heq, Std.lt_of_le_of_ne hname hne⟩

/-- No count stands `Before` one that stands before it. -/
private theorem Before.asymm {a b : Count} (hab : a.Before b) (hba : b.Before a) : False := by
  rcases hab with hab | ⟨hab, hname⟩
  · rcases hba with hba | ⟨hba, -⟩
    · omega
    · omega
  · rcases hba with hba | ⟨-, hname'⟩
    · omega
    · exact String.lt_irrefl _ (String.lt_trans hname hname')

instance : Std.Asymm Before :=
  ⟨fun _ _ hab hba => hab.asymm hba⟩

instance (a b : Count) : Decidable (a.Before b) :=
  inferInstanceAs (Decidable (_ ∨ _))

/-- No two counts of different names are `tied`. -/
theorem pairwise_untied {cs : List Count} (h : (cs.map name).Nodup) :
    cs.Pairwise fun a b => tied le a b = false := by
  rw [List.Nodup, List.pairwise_map] at h
  refine h.imp fun hne => ?_
  rw [← Bool.not_eq_true]
  exact fun htied => hne (name_eq_of_tied htied)

end Report.Count

namespace Drawing.ClassChart

open CallGraph

/-- Pairs in the order of their first parts, and of equal ones of their second parts. -/
def PairBefore (p q : String × String) : Prop :=
  p.1 < q.1 ∨ p.1 = q.1 ∧ p.2 < q.2

instance (p q : String × String) : Decidable (PairBefore p q) :=
  inferInstanceAs (Decidable (_ ∨ _))

/-- No pair stands before one that stands before it (`PairBefore`). -/
private theorem PairBefore.asymm {p q : String × String} (hpq : PairBefore p q) (hqp : PairBefore q p) :
    False := by
  rcases hpq with hpq | ⟨hpq, hlt⟩
  · rcases hqp with hqp | ⟨hqp, -⟩
    · exact String.lt_irrefl _ (String.lt_trans hpq hqp)
    · exact String.lt_irrefl _ (hqp ▸ hpq)
  · rcases hqp with hqp | ⟨-, hlt'⟩
    · exact String.lt_irrefl _ (hpq ▸ hqp)
    · exact String.lt_irrefl _ (String.lt_trans hlt hlt')

/-- `pairLe` is a total preorder. -/
private theorem totalPreorder_pairLe : TotalPreorder pairLe :=
  totalPreorder_cmp (compareLex (compareOn Prod.fst) (compareOn Prod.snd))

/-- Pairs that compare as equal are equal. -/
private theorem pairCmp_eq_iff {p q : String × String} :
    (compare p.1 q.1).then (compare p.2 q.2) = .eq ↔ p = q := by
  rw [Ordering.then_eq_eq, Std.compare_eq_iff_eq, Std.compare_eq_iff_eq, Prod.ext_iff]

/-- `pairLe` tells any two pairs apart. -/
private theorem pairLe_antisymm {p q : String × String} (hpq : pairLe p q = true) (hqp : pairLe q p = true) :
    p = q := by
  have htied : tied pairLe p q = true := by
    rw [tied, hpq, hqp]
    rfl
  exact pairCmp_eq_iff.1 ((tied_cmp_iff (compareLex (compareOn Prod.fst) (compareOn Prod.snd)) p q).1 htied)

/-- Different pairs that `pairLe` puts in order stand strictly before each other (`PairBefore`). -/
private theorem pairBefore_of_pairLe {p q : String × String} (hpq : pairLe p q = true) (hne : p ≠ q) :
    PairBefore p q := by
  have hlt : ∀ a b : String, compare a b = .lt ↔ a < b := fun a b => compareOfLessAndEq_eq_lt
  rcases Ordering.isLE_iff_eq_lt_or_eq_eq.1 hpq with hcmp | hcmp
  · rwa [Ordering.then_eq_lt, hlt, hlt, Std.compare_eq_iff_eq] at hcmp
  · exact absurd (pairCmp_eq_iff.1 hcmp) hne

/-! ### Drawing with choices -/

/-- What is left open: the order in which pairs are listed when they are added up and when they are drawn, the
    order in which classes are listed, and the sorts. -/
structure Choices where
  summed : Listing ((String × String) × Nat)
  ranked : Listing (String × Nat)
  drawn : Listing ((String × String) × Nat)
  classes : Sorting Report.Count.le
  pairs : Sorting pairLe

/-- What is counted in a drawing of classes. -/
structure Chart where
  /-- The classes with the number of calls that enter or leave each. -/
  classes : List Report.Count
  /-- The pairs of classes with the number of calls between them. -/
  edges : List ((String × String) × Nat)
  /-- The greatest number of calls on an edge, at least one. -/
  most : Nat

/-- Adds the calls of a pair to those of both classes. -/
def addPair (involved : Std.HashMap String Nat) (e : (String × String) × Nat) : Std.HashMap String Nat :=
  let involved := involved.insert e.1.1 (involved.getD e.1.1 0 + e.2)
  involved.insert e.1.2 (involved.getD e.1.2 0 + e.2)

/-- Both classes of a pair are among the names. -/
def isAmong (names : List String) (p : String × String) : Bool :=
  (setOf names).contains p.1 && (setOf names).contains p.2

/-- Counts calls by pairs, adds up the pairs by class, ranks the classes and draws the pairs of those that are
    left. What is left open is chosen. -/
def chartWith (ch : Choices) (maxNodes : Int) (xs : List Crossing) : Chart :=
  let counts := pairCounts xs
  let involved := (ch.summed.list counts.toList).foldl addPair ∅
  let classes := limitTo maxNodes
    (ch.classes.sort ((ch.ranked.list involved.toList).map fun e => ⟨e.1, e.2⟩))
  let drawn := (ch.drawn.list counts.toList).filter fun e => isAmong (classes.map Report.Count.name) e.1
  ⟨classes, (ch.pairs.sort (drawn.map Prod.fst)).map fun p => (p, counts.getD p 0),
    atLeastOne (drawn.map Prod.snd)⟩

/-- The pairs of classes in a drawing, with their calls. -/
def drawnPairs (names : List String) (xs : List Crossing) : List ((String × String) × Nat) :=
  ((pairs xs).filter (isAmong names)).map fun p => (p, (pairCounts xs).getD p 0)

/-- What is counted in the drawing of classes. -/
def chart (maxNodes : Int) (xs : List Crossing) : Chart :=
  let classes := limitTo maxNodes (ranking xs)
  let edges := drawnPairs (classes.map Report.Count.name) xs
  ⟨classes, edges, atLeastOne (edges.map Prod.snd)⟩

/-! ### Calls by class -/

/-- The classes of a call between two. -/
def Crossing.pair (x : Crossing) : String × String :=
  (x.source, x.target)

/-- The calls of a pair as far as they concern a class. -/
def share (name : String) (e : (String × String) × Nat) : Nat :=
  (if e.1.1 == name then e.2 else 0) + (if e.1.2 == name then e.2 else 0)

/-- `addPair` adds its `share` to each class. -/
private theorem getD_addPair (involved : Std.HashMap String Nat) (e : (String × String) × Nat) (name : String) :
    (addPair involved e).getD name 0 = involved.getD name 0 + share name e := by
  simp only [addPair, share, Std.HashMap.getD_insert]
  grind

/-- `addPair` brings in both classes of the pair. -/
private theorem mem_addPair {involved : Std.HashMap String Nat} {e : (String × String) × Nat} {name : String} :
    name ∈ addPair involved e ↔ name ∈ involved ∨ e.1.1 = name ∨ e.1.2 = name := by
  simp only [addPair, Std.HashMap.mem_insert, beq_iff_eq]
  tauto

/-- Pair by pair, `addPair` adds up the shares of a class. -/
private theorem getD_foldl_addPair (involved : Std.HashMap String Nat) (es : List ((String × String) × Nat))
    (name : String) : (es.foldl addPair involved).getD name 0 =
      involved.getD name 0 + (es.map (share name)).sum := by
  induction es generalizing involved with
  | nil => simp
  | cons e es ih =>
    rw [List.foldl_cons, ih, getD_addPair, List.map_cons, List.sum_cons, Nat.add_assoc]

/-- Pair by pair, `addPair` brings in the classes of all pairs. -/
private theorem mem_foldl_addPair {involved : Std.HashMap String Nat} {es : List ((String × String) × Nat)}
    {name : String} : name ∈ es.foldl addPair involved ↔
      name ∈ involved ∨ ∃ e ∈ es, e.1.1 = name ∨ e.1.2 = name := by
  induction es generalizing involved with
  | nil => simp
  | cons e es ih =>
    rw [List.foldl_cons, ih, mem_addPair, or_assoc, List.exists_mem_cons_iff]

section
variable (xs : List Crossing)

/-- The classes of calls, one for each end. -/
def ends : List String :=
  xs.flatMap fun x => [x.source, x.target]

/-- `pairCounts` has the number of calls between two classes. -/
private theorem getD_pairCounts (p : String × String) :
    (pairCounts xs).getD p 0 = (xs.map Crossing.pair).count p :=
  getD_countTable _ p

/-- `pairCounts` lists each pair once, with its number of calls. -/
theorem perm_toList_pairCounts : (pairCounts xs).toList.Perm
    ((distinct (xs.map Crossing.pair)).map fun p => (p, (xs.map Crossing.pair).count p)) :=
  perm_toList_countTable (xs.map Crossing.pair)

/-- The `share` of a class is the number of calls for each end of the pair that it is. -/
private theorem share_eq_mul (name : String) (e : (String × String) × Nat) :
    share name e = e.2 * [e.1.1, e.1.2].count name := by
  simp only [share, List.count_cons, List.count_nil]
  split <;> split <;> simp [Nat.mul_two]

/-- The calls of all `pairCounts` as far as they concern a class are the calls that it is an end of. -/
private theorem sum_share (name : String) :
    ((pairCounts xs).toList.map (share name)).sum = (ends xs).count name := by
  have hsum := sum_map_distinct (xs.map Crossing.pair) fun p => [p.1, p.2].count name
  rw [((perm_toList_pairCounts xs).map (share name)).sum_eq, List.map_map, ends, List.count_flatMap]
  simpa only [Function.comp_def, share_eq_mul, List.map_map, Crossing.pair] using hsum

/-- `pairCounts` lists a pair with its number of calls. -/
theorem mem_toList_pairCounts {p : String × String} {n : Nat} : (p, n) ∈ (pairCounts xs).toList ↔
    p ∈ xs.map Crossing.pair ∧ n = (xs.map Crossing.pair).count p := by
  rw [(perm_toList_pairCounts xs).mem_iff, List.mem_map]
  constructor
  · rintro ⟨q, hq, heq⟩
    obtain ⟨rfl, rfl⟩ := Prod.mk.inj heq
    exact ⟨mem_distinct.1 hq, rfl⟩
  · rintro ⟨hp, rfl⟩
    exact ⟨p, mem_distinct.2 hp, rfl⟩

/-- `ends` are the classes of the pairs that are counted. -/
private theorem mem_ends {n : String} : n ∈ ends xs ↔ ∃ e ∈ (pairCounts xs).toList, e.1.1 = n ∨ e.1.2 = n := by
  simp only [ends, List.mem_flatMap, List.mem_cons, List.not_mem_nil, or_false]
  constructor
  · rintro ⟨x, hx, hn⟩
    refine ⟨(x.pair, _), (mem_toList_pairCounts xs).2 ⟨List.mem_map_of_mem hx, rfl⟩, ?_⟩
    exact hn.imp Eq.symm Eq.symm
  · rintro ⟨⟨p, k⟩, he, hn⟩
    obtain ⟨x, hx, rfl⟩ := List.mem_map.1 ((mem_toList_pairCounts xs).1 he).1
    exact ⟨x, hx, hn.imp Eq.symm Eq.symm⟩

/-- In whatever order pairs are added up by `addPair`, each class ends up with the calls that it is an end
    of. -/
private theorem perm_toList_involved {es : List ((String × String) × Nat)}
    (hes : es.Perm (pairCounts xs).toList) :
    (es.foldl addPair ∅).toList.Perm ((distinct (ends xs)).map fun n => (n, (ends xs).count n)) := by
  have hmem : ∀ n, n ∈ es.foldl addPair ∅ ↔ n ∈ distinct (ends xs) := by
    intro n
    rw [mem_foldl_addPair, mem_distinct, mem_ends]
    simp only [hes.mem_iff, Std.HashMap.not_mem_empty, false_or]
  have hcount : ∀ n, (es.foldl addPair ∅).getD n 0 = (ends xs).count n := by
    intro n
    rw [getD_foldl_addPair, (hes.map (share n)).sum_eq, sum_share, Std.HashMap.getD_empty, Nat.zero_add]
  simpa only [hcount] using perm_toList (nodup_distinct (ends xs)) hmem

/-- `pairs` are listed once each, in the order `pairLe`. -/
theorem pairwise_le_ne_pairs : (pairs xs).Pairwise fun p q => pairLe p q ∧ p ≠ q :=
  pairwise_dropRepeats (fun _ _ => pairLe_antisymm)
    (totalPreorder_pairLe.pairwise_mergeSort (xs.map Crossing.pair))

/-- `pairs` are listed in strictly ascending order (`PairBefore`). -/
private theorem pairwise_pairs : (pairs xs).Pairwise PairBefore :=
  (pairwise_le_ne_pairs xs).imp fun h => pairBefore_of_pairLe h.1 h.2

/-- `pairs` are those of the calls. -/
private theorem mem_pairs {p : String × String} : p ∈ pairs xs ↔ p ∈ xs.map Crossing.pair :=
  mem_dropRepeats.trans List.mem_mergeSort

/-- `pairs` are not repeated. -/
private theorem nodup_pairs : (pairs xs).Nodup :=
  (pairwise_le_ne_pairs xs).imp fun h => h.2

/-- `pairs` are the different pairs of the calls, in another order. -/
private theorem perm_pairs : (pairs xs).Perm (distinct (xs.map Crossing.pair)) := by
  rw [List.perm_ext_iff_of_nodup (nodup_pairs xs) (nodup_distinct _)]
  intro p
  rw [mem_pairs, mem_distinct]

/-! ### No choice makes a difference -/

variable (ch : Choices) {es : List ((String × String) × Nat)} (hes : es.Perm (pairCounts xs).toList)
include hes

/-- However classes are listed and sorted (`Choices`), they come out in the one `ranking`. -/
private theorem sort_classes : ch.classes.sort
    ((ch.ranked.list (es.foldl addPair ∅).toList).map fun e => ⟨e.1, e.2⟩) = ranking xs := by
  have hperm := ((ch.ranked.perm _).trans (perm_toList_involved xs hes)).map
    fun e => (⟨e.1, e.2⟩ : Report.Count)
  have htally : Report.tally (ends xs) =
      ((distinct (ends xs)).map fun n => (n, (ends xs).count n)).map fun e => ⟨e.1, e.2⟩ := by
    simp only [Report.tally, getD_countTable, List.map_map, Function.comp_def]
  rw [← htally] at hperm
  -- each class is listed once, so that no two have the same place in the ranking
  have hnames : ((Report.tally (ends xs)).map Report.Count.name).Nodup := by
    rw [names_tally]
    exact nodup_distinct _
  exact (Report.Count.totalPreorder_le.eq_of_sorts (Report.Count.pairwise_untied hnames) hperm
    (Report.Count.totalPreorder_le.sorts_mergeSort _) (ch.classes.sorts _)).symm

/-- `drawnPairs` are the same in whatever order pairs are listed. -/
theorem perm_drawnPairs (names : List String) :
    (es.filter fun e => isAmong names e.1).Perm (drawnPairs names xs) := by
  have hperm := (hes.trans (perm_toList_pairCounts xs)).trans
    ((perm_pairs xs).map fun p => (p, (xs.map Crossing.pair).count p)).symm
  have hfilter := hperm.filter fun e => isAmong names e.1
  rw [List.filter_map] at hfilter
  simp only [drawnPairs, getD_pairCounts]
  exact hfilter

/-- However pairs are listed and sorted (`Choices`), they come out in the order of `pairs`. -/
private theorem sort_pairs (names : List String) :
    ch.pairs.sort ((es.filter fun e => isAmong names e.1).map Prod.fst) =
      (pairs xs).filter (isAmong names) := by
  have hfst : (drawnPairs names xs).map Prod.fst = (pairs xs).filter (isAmong names) := by
    rw [drawnPairs, List.map_map]
    exact List.map_id _
  have hsorts := ch.pairs.sorts ((es.filter fun e => isAmong names e.1).map Prod.fst)
  have hperm := hsorts.perm.trans ((perm_drawnPairs xs hes names).map Prod.fst)
  rw [hfst] at hperm
  -- both lists are in order, and the order tells any two pairs apart
  have hordered := ((pairwise_le_ne_pairs xs).imp fun h => h.1).filter (isAmong names)
  exact List.Perm.eq_of_pairwise (fun _ _ _ _ => pairLe_antisymm) hsorts.ordered hordered hperm

end

/-- `atLeastOne` does not depend on the order of the numbers. -/
private theorem atLeastOne_eq_of_perm {ns ms : List Nat} (h : ns.Perm ms) : atLeastOne ns = atLeastOne ms :=
  h.foldl_eq 1

/-- However tables list what is in them, and whatever sorts do with ties, `chartWith` makes the one `chart`. -/
theorem chartWith_eq (ch : Choices) (maxNodes : Int) (xs : List Crossing) :
    chartWith ch maxNodes xs = chart maxNodes xs := by
  have hclasses := sort_classes xs ch (ch.summed.perm (pairCounts xs).toList)
  have hdrawn := ch.drawn.perm (pairCounts xs).toList
  simp only [chartWith, hclasses, sort_pairs xs ch hdrawn, chart]
  rw [atLeastOne_eq_of_perm ((perm_drawnPairs xs hdrawn _).map Prod.snd)]
  rfl

/-! ### What the counts add up to -/

section
variable {xs : List Crossing}

/-- `isAmong` holds of pairs of which both classes are among the names. -/
private theorem isAmong_iff {names : List String} {p : String × String} :
    isAmong names p = true ↔ p.1 ∈ names ∧ p.2 ∈ names := by
  rw [isAmong, Bool.and_eq_true, contains_setOf, contains_setOf, List.contains_iff_mem, List.contains_iff_mem]

/-- `drawnPairs` are those with calls of which both classes are among the names. -/
private theorem mem_drawnPairs {names : List String} {p : String × String} {n : Nat} :
    (p, n) ∈ drawnPairs names xs ↔ n = (xs.map Crossing.pair).count p ∧ 0 < n ∧ p.1 ∈ names ∧ p.2 ∈ names := by
  simp only [drawnPairs, getD_pairCounts, List.mem_map, List.mem_filter, isAmong_iff, mem_pairs]
  constructor
  · rintro ⟨q, ⟨hq, hnames⟩, heq⟩
    obtain ⟨rfl, rfl⟩ := Prod.mk.inj heq
    exact ⟨rfl, List.count_pos_iff.2 (List.mem_map.2 hq), hnames⟩
  · rintro ⟨rfl, hpos, hnames⟩
    exact ⟨p, ⟨List.mem_map.1 (List.count_pos_iff.1 hpos), hnames⟩, rfl⟩

/-- `drawnPairs` are listed in strictly ascending order (`PairBefore`). -/
private theorem pairwise_drawnPairs (names : List String) :
    (drawnPairs names xs).Pairwise fun d e => PairBefore d.1 e.1 := by
  rw [drawnPairs, List.pairwise_map]
  exact (pairwise_pairs xs).filter _

/-- A class in the `ranking` has the number of calls that it is an end of. -/
private theorem count_of_mem_ranking {k : Report.Count} (hk : k ∈ ranking xs) :
    k.count = (ends xs).count k.name := by
  obtain ⟨n, -, rfl⟩ := List.mem_map.1 (List.mem_mergeSort.1 hk)
  show ((countTable (ends xs)).getD n 0 : Int) = _
  rw [getD_countTable]

/-- The `ranking` is strict (`Before`), as names are not repeated. -/
private theorem pairwise_ranking (xs : List Crossing) : (ranking xs).Pairwise Report.Count.Before := by
  have hnames := nodup_names_ranking xs
  rw [List.Nodup, List.pairwise_map] at hnames
  exact (Report.Count.totalPreorder_le.pairwise_mergeSort _).imp₂ (fun _ _ => Report.Count.before_of_le) hnames

/-- If all classes are drawn, `drawnPairs` are all pairs. -/
private theorem perm_drawnPairs_ranking (xs : List Crossing) :
    (drawnPairs ((ranking xs).map Report.Count.name) xs).Perm (pairCounts xs).toList := by
  have hall := perm_drawnPairs xs (List.Perm.refl _) ((ranking xs).map Report.Count.name)
  rw [List.filter_eq_self.2] at hall
  · exact hall.symm
  · rintro ⟨p, n⟩ he
    obtain ⟨x, hx, rfl⟩ := List.mem_map.1 ((mem_toList_pairCounts xs).1 he).1
    exact isAmong_iff.2 ⟨mem_names_ranking.2 ⟨x, hx, .inl rfl⟩, mem_names_ranking.2 ⟨x, hx, .inr rfl⟩⟩

/-- All `pairCounts` together have every call once. -/
theorem sum_pairCounts (xs : List Crossing) : ((pairCounts xs).toList.map Prod.snd).sum = xs.length := by
  have hsum := sum_map_distinct (xs.map Crossing.pair) fun _ => 1
  rw [((perm_toList_pairCounts xs).map Prod.snd).sum_eq, List.map_map]
  simpa [Function.comp_def] using hsum

/-- The `share` of a class in all pairs is what leaves it and what enters it. -/
private theorem sum_share_eq (name : String) (es : List ((String × String) × Nat)) : (es.map (share name)).sum =
    ((es.filter fun e => e.1.1 == name).map Prod.snd).sum +
      ((es.filter fun e => e.1.2 == name).map Prod.snd).sum := by
  rw [← sum_map_ite_zero, ← sum_map_ite_zero, ← List.sum_map_add]
  rfl

end

section
variable (funcs : List Func) (calls : List Call)

/-- The class that a method counts for: the owner in the last of `funcs` with its name, or else the one that
    stands in the name itself. -/
def classOf (name : String) : String :=
  orUnowned (((funcs.reverse.find? fun f => f.name == name).map Func.owner).getD (Report.ownerPrefix name))

/-- `ownerOf` looks up the class in a table that later methods overwrite: it is `classOf`. -/
theorem ownerOf_eq_classOf (name : String) : ownerOf (ownerTable funcs) name = classOf funcs name := by
  have hlookup (fs : List Func) : (fs.map fun f => (f.name, orUnowned f.owner)).lookup name =
      ((fs.find? fun f => f.name == name).map Func.owner).map orUnowned := by
    -- the first method of the name counts, where the list is read from its end
    induction fs with
    | nil => rfl
    | cons f fs ih =>
      by_cases heq : f.name = name
      · simp [heq]
      · simp [List.lookup_cons, heq, ih, beq_eq_false_iff_ne.2 (Ne.symm heq)]
  rw [ownerOf, ownerTable, Std.HashMap.getD_eq_getD_getElem?, getElem?_lastTable, ← List.map_reverse, hlookup,
    Report.ownerInName_eq_ownerPrefix, classOf]
  cases (funcs.reverse.find? fun f => f.name == name).map Func.owner <;> rfl

/-- The number of calls that lead from methods of one class to methods of another. -/
def callsBetween (p : String × String) : Nat :=
  calls.countP fun c => classOf funcs c.source == p.1 && classOf funcs c.target == p.2

/-- `callsBetween` two classes there are some if one of `calls` leads from a method of the first to one of the
    second. -/
private theorem callsBetween_pos {p : String × String} : 0 < callsBetween funcs calls p ↔
    ∃ c ∈ calls, classOf funcs c.source = p.1 ∧ classOf funcs c.target = p.2 := by
  simp [callsBetween, List.countP_pos_iff]

/-- The classes of the two ends of a call. -/
def pairOf (c : Call) : String × String :=
  (classOf funcs c.source, classOf funcs c.target)

/-- `crossings` has the calls between two different classes, and none within one. -/
private theorem count_crossings (p : String × String) : ((crossings funcs calls).map Crossing.pair).count p =
    if p.1 = p.2 then 0 else callsBetween funcs calls p := by
  rw [List.count_eq_countP, List.countP_map, crossings, List.countP_filter, List.countP_map, callsBetween]
  simp only [ownerOf_eq_classOf]
  split
  · -- a call within one class is no crossing
    next heq =>
    rw [List.countP_eq_zero]
    intro c _ hc
    simp only [Function.comp_apply, Bool.and_eq_true, beq_iff_eq, bne_iff_ne] at hc
    obtain ⟨hpair, hne⟩ := hc
    subst hpair
    exact hne heq
  · -- between two classes the filter leaves all calls
    next hne =>
    refine List.countP_congr fun c _ => ?_
    simp only [Function.comp_apply, Bool.and_eq_true, beq_iff_eq, bne_iff_ne, Crossing.pair, Prod.ext_iff]
    constructor
    · exact fun h => h.1
    · rintro ⟨hsource, htarget⟩
      refine ⟨⟨hsource, htarget⟩, fun heq => hne ?_⟩
      rw [← hsource, ← htarget]
      exact heq

/-- `crossings` are the calls that lead from one class to another. -/
private theorem length_crossings : (crossings funcs calls).length =
    calls.countP fun c => classOf funcs c.source != classOf funcs c.target := by
  rw [crossings, ← List.countP_eq_length_filter, List.countP_map]
  simp only [ownerOf_eq_classOf]
  rfl

end

/-- What the numbers of a chart of at most `maxNodes` classes say about calls, beside the chart of all
    classes. -/
structure Chart.Aggregates (c all : Chart) (maxNodes : Int) (funcs : List Func) (calls : List Call) : Prop where
  /-- Without a limit, every call between two classes is counted on one edge. -/
  conserved : maxNodes ≤ 0 → (c.edges.map Prod.snd).sum =
    calls.countP fun k => classOf funcs k.source != classOf funcs k.target
  /-- The number of a class is that of its edges, those that leave it and those that enter it. -/
  involvement : ∀ k ∈ all.classes, k.count =
    (((all.edges.filter fun e => e.1.1 == k.name).map Prod.snd).sum +
      ((all.edges.filter fun e => e.1.2 == k.name).map Prod.snd).sum : Nat)
  /-- The classes are those that a call leaves or enters. -/
  mem_classes : ∀ n, n ∈ all.classes.map Report.Count.name ↔
    ∃ k ∈ calls, classOf funcs k.source ≠ classOf funcs k.target ∧
      (classOf funcs k.source = n ∨ classOf funcs k.target = n)
  /-- The classes stand in their order. -/
  ranked : all.classes.Pairwise Report.Count.Before
  /-- With a limit, the first classes are drawn. -/
  classes : c.classes = if 0 < maxNodes then all.classes.take maxNodes.toNat else all.classes
  /-- The edges are the pairs of drawn classes with calls between them. -/
  mem_edges : ∀ p n, (p, n) ∈ c.edges ↔ p.1 ≠ p.2 ∧ n = callsBetween funcs calls p ∧ 0 < n ∧
    p.1 ∈ c.classes.map Report.Count.name ∧ p.2 ∈ c.classes.map Report.Count.name
  /-- The edges stand in strictly ascending order. -/
  ascending : c.edges.Pairwise fun d e => PairBefore d.1 e.1

/-- The numbers of a `chart` add up (`Aggregates`), for every limit. -/
theorem aggregates_chart (maxNodes : Int) (funcs : List Func) (calls : List Call) :
    (chart maxNodes (crossings funcs calls)).Aggregates (chart 0 (crossings funcs calls)) maxNodes
      funcs calls where
  conserved hlimit := by
    -- no class is left out, so that no pair is
    have hnames : limitTo maxNodes (ranking (crossings funcs calls)) = ranking (crossings funcs calls) :=
      if_neg (by omega)
    simp only [chart, hnames]
    rw [((perm_drawnPairs_ranking _).map Prod.snd).sum_eq, sum_pairCounts, length_crossings]
  involvement k hk := by
    -- without a limit all edges of a class are there to be added up
    have hcount := count_of_mem_ranking hk
    rw [hcount, ← sum_share, ← ((perm_drawnPairs_ranking _).map (share k.name)).sum_eq, sum_share_eq]
    rfl
  mem_classes n := by
    refine mem_names_ranking.trans ?_
    simp only [mem_crossings, ownerOf_eq_classOf]
    constructor
    · rintro ⟨_, ⟨k, hk, rfl, hne⟩, hn⟩
      exact ⟨k, hk, hne, hn.imp Eq.symm Eq.symm⟩
    · rintro ⟨k, hk, hne, hn⟩
      exact ⟨_, ⟨k, hk, rfl, hne⟩, hn.imp Eq.symm Eq.symm⟩
  ranked := pairwise_ranking _
  classes := rfl
  mem_edges p n := by
    refine mem_drawnPairs.trans ?_
    rw [count_crossings]
    -- no pair of one class is among the crossings
    by_cases heq : p.1 = p.2
    · simp only [heq, if_true, ne_eq, not_true, false_and, iff_false]
      omega
    · rw [if_neg heq]
      exact ⟨fun h => ⟨heq, h⟩, fun h => h.2⟩
  ascending := pairwise_drawnPairs _

/-- Without a limit, every call between two classes is on an edge of the `chart`. -/
private theorem mem_edges_chart_zero {funcs : List Func} {calls : List Call} {e : (String × String) × Nat} :
    e ∈ (chart 0 (crossings funcs calls)).edges ↔ ∃ c ∈ calls,
      classOf funcs c.source ≠ classOf funcs c.target ∧
        (pairOf funcs c, callsBetween funcs calls (pairOf funcs c)) = e := by
  have hchart := aggregates_chart 0 funcs calls
  obtain ⟨p, n⟩ := e
  rw [hchart.mem_edges, hchart.mem_classes, hchart.mem_classes]
  constructor
  · -- a pair with calls is the pair of one of them
    rintro ⟨hne, rfl, hpos, -⟩
    obtain ⟨c, hc, hsource, htarget⟩ := (callsBetween_pos funcs calls).1 hpos
    have hpair : pairOf funcs c = p := Prod.ext hsource htarget
    exact ⟨c, hc, hsource ▸ htarget ▸ hne, by rw [hpair]⟩
  · rintro ⟨c, hc, hne, heq⟩
    obtain ⟨rfl, rfl⟩ := Prod.mk.inj heq
    have hpos : 0 < callsBetween funcs calls (pairOf funcs c) :=
      (callsBetween_pos funcs calls).2 ⟨c, hc, rfl, rfl⟩
    exact ⟨hne, rfl, hpos, ⟨c, hc, hne, .inl rfl⟩, c, hc, hne, .inr rfl⟩

/-- Without a limit, both ends of every call between two classes are among the classes of the `chart`, with what
    their edges add up to. -/
private theorem mem_classes_chart_zero {funcs : List Func} {calls : List Call} {k : Report.Count} :
    k ∈ (chart 0 (crossings funcs calls)).classes ↔ ∃ c ∈ calls,
      classOf funcs c.source ≠ classOf funcs c.target ∧ ∃ n ∈ [classOf funcs c.source, classOf funcs c.target],
        ⟨n, ((chart 0 (crossings funcs calls)).edges.map (share n)).sum⟩ = k := by
  have hchart := aggregates_chart 0 funcs calls
  -- what leaves a class and what enters it is its share of all edges
  have hinvolved := hchart.involvement
  simp only [← sum_share_eq] at hinvolved
  constructor
  · intro hk
    obtain ⟨c, hc, hne, hn⟩ := (hchart.mem_classes k.name).1 (List.mem_map_of_mem hk)
    exact ⟨c, hc, hne, k.name, List.mem_pair.2 (hn.imp Eq.symm Eq.symm), by rw [← hinvolved k hk]⟩
  · rintro ⟨c, hc, hne, n, hn, rfl⟩
    obtain ⟨k, hk, rfl⟩ := List.mem_map.1 ((hchart.mem_classes n).2
      ⟨c, hc, hne, (List.mem_pair.1 hn).imp Eq.symm Eq.symm⟩)
    rwa [← hinvolved k hk]

/-! ### What a drawing shows of its chart -/

/-- The attributes of the edge from one class to another show that `n` calls are made, where `most` is the
    greatest such number. -/
structure ShowsTraffic (theme : Theme) (isExternal : Bool) (n most : Nat) (as : List Attribute) : Prop where
  color : valueOf? "color" as = some (.quoted (if isExternal then theme.edgeExternal else theme.edgeDirect))
  width : valueOf? "penwidth" as = some (.bare (Text.decimal 1 (Text.logScale 0.5 2.0 n most)))
  label : valueOf? "label" as =
    if 1 < n then some (.markup (sizedText "7" theme.externalText (toString n))) else none

/-- A `classEdge` leads from the first class of its pair to the second and shows the number that it is given. -/
private theorem exists_classEdge (theme : Theme) (isExternal : Bool) (n most : Nat) (p : String × String) :
    ∃ as, classEdge theme isExternal n most p = .edge (.named p.1) (.named p.2) as ∧
      ShowsTraffic theme isExternal n most as := by
  refine ⟨_, rfl, ?_⟩
  have hcolor := apply_ite Text.RawText.ofString (isExternal = true) theme.edgeExternal theme.edgeDirect
  -- only from two calls on there is a label
  by_cases hn : 1 < n
  · constructor <;>
      simp [valueOf?, Attribute.quoted, Attribute.bare, Attribute.markup, font_eq_sizedText, hn, hcolor]
  · constructor <;> simp [valueOf?, Attribute.quoted, Attribute.bare, hn, hcolor]

/-- A call from another class leads to a method of the class `n` that is not declared. -/
def IsExternal (funcs : List Func) (calls : List Call) (n : String) : Prop :=
  ∃ c ∈ calls, c.target ∉ funcs.map Func.name ∧ classOf funcs c.target = n ∧ classOf funcs c.source ≠ n

instance (funcs : List Func) (calls : List Call) (n : String) : Decidable (IsExternal funcs calls n) :=
  inferInstanceAs (Decidable (∃ c ∈ calls, _))

/-- `IsExternal` says by `classOf` what `IsEntered` says by the table of owners. -/
private theorem isEntered_iff_isExternal {funcs : List Func} {calls : List Call} {n : String} :
    IsEntered funcs calls n ↔ IsExternal funcs calls n := by
  unfold IsEntered IsExternal
  refine exists_congr fun c => and_congr_right fun _ => and_congr_right fun htarget => ?_
  rw [ownerOf_eq_classOf, ← ownerOf_of_notMem htarget, ownerOf_eq_classOf]

/-- The line below the name of a class: that it is external, or the number of its methods. -/
def lineBelow (funcs : List Func) (calls : List Call) (n : String) : String :=
  if IsExternal funcs calls n then "external"
  else toString (funcs.countP fun f => orUnowned f.owner == n) ++ " methods"

/-- The drawing shows a chart: its classes as nodes and its pairs as edges, in their order, the classes with
    their names and the pairs with their numbers. -/
structure Chart.ShownBy (c : Chart) (theme : Theme) (funcs : List Func) (calls : List Call)
    (d : Sheet) : Prop where
  nodes : d.nodes = c.classes.map fun k => .named k.name
  edges : d.edges = c.edges.map fun e => (.named e.1.1, .named e.1.2)
  classes : ∀ k ∈ c.classes, ∃ as, .node (.named k.name) as ∈ d.body ∧
    valueOf? "label" as = some (label theme k.name (lineBelow funcs calls k.name)).value
  traffic : ∀ e ∈ c.edges, ∃ as, .edge (.named e.1.1) (.named e.1.2) as ∈ d.body ∧
    ShowsTraffic theme (IsExternal funcs calls e.1.2) e.2 c.most as

/-- `methodCounts` has the number of methods that a class declares. -/
private theorem getD_methodCounts (funcs : List Func) (n : String) :
    (methodCounts funcs).getD n 0 = funcs.countP fun f => orUnowned f.owner == n := by
  rw [methodCounts, getD_countTable, List.count_eq_countP, List.countP_map]
  rfl

section
variable (theme : Theme) (title : String) (maxNodes : Int) (funcs : List Func) (calls : List Call)

/-- The statements of `classDrawing` are made of what `chart` counts: a node for each class and an edge for each
    pair. -/
private theorem exists_body_eq_chart : ∃ (front : List Statement) (most : Nat),
    (classDrawing theme title maxNodes funcs calls).body = front ++
      (chart maxNodes (crossings funcs calls)).classes.map (fun k => classNode theme
        (IsExternal funcs calls k.name) (funcs.countP fun f => orUnowned f.owner == k.name) most k.name) ++
      [.blank] ++
      (chart maxNodes (crossings funcs calls)).edges.map fun e => classEdge theme
        (IsExternal funcs calls e.1.2) e.2 (chart maxNodes (crossings funcs calls)).most e.1 := by
  have hexternal (n : String) : (setOf (((crossings funcs calls).filter fun x => !x.declared).map
      Crossing.target)).contains n = decide (IsExternal funcs calls n) := by
    rw [Bool.eq_iff_iff, contains_external_iff, isEntered_iff_isExternal, decide_eq_true_eq]
  simp only [classDrawing, chart, drawnPairs, List.map_map, hexternal, getD_methodCounts]
  exact ⟨_, _, rfl⟩

/-- `classDrawing` draws what `chart` counts (`ShownBy`). -/
private theorem shownBy_classDrawing : (chart maxNodes (crossings funcs calls)).ShownBy theme funcs calls
    (classDrawing theme title maxNodes funcs calls) := by
  obtain ⟨front, most, hbody⟩ := exists_body_eq_chart theme title maxNodes funcs calls
  constructor
  · rw [nodes_classDrawing, drawnClasses, List.map_map]
    rfl
  · rw [edges_classDrawing, chart, drawnPairs, List.map_map]
    rfl
  · -- the label is the first attribute of the node
    intro k hk
    obtain ⟨rest, hnode, -⟩ := exists_classNode theme (IsExternal funcs calls k.name)
      (funcs.countP fun f => orUnowned f.owner == k.name) most k.name
    simp only [decide_eq_true_eq] at hnode
    refine ⟨label theme k.name (lineBelow funcs calls k.name) :: rest, ?_, rfl⟩
    rw [hbody]
    refine List.mem_append_left _ (List.mem_append_left _ (List.mem_append_right _ ?_))
    exact List.mem_map.2 ⟨k, hk, hnode⟩
  · -- the edges are the last statements
    intro e he
    obtain ⟨as, hedge, hshows⟩ := exists_classEdge theme (IsExternal funcs calls e.1.2) e.2
      (chart maxNodes (crossings funcs calls)).most e.1
    refine ⟨as, ?_, hshows⟩
    rw [hbody, ← hedge]
    exact List.mem_append_right _ (List.mem_map.2 ⟨e, he, rfl⟩)

end

/-- `classDrawing` shows a `chart` (`ShownBy`) that is the same for all `Choices`, and which conserves the calls
    (`Aggregates`). -/
theorem classDrawing_conserves (ch : Choices) (theme : Theme) (title : String) (maxNodes : Int)
    (funcs : List Func) (calls : List Call) :
    chartWith ch maxNodes (crossings funcs calls) = chart maxNodes (crossings funcs calls) ∧
    (chart maxNodes (crossings funcs calls)).ShownBy theme funcs calls
      (classDrawing theme title maxNodes funcs calls) ∧
    (chart maxNodes (crossings funcs calls)).Aggregates (chart 0 (crossings funcs calls)) maxNodes
      funcs calls :=
  ⟨chartWith_eq ch maxNodes _, shownBy_classDrawing theme title maxNodes funcs calls,
    aggregates_chart maxNodes funcs calls⟩

/-- All choices made the other way round. -/
def backwardChoices : Choices where
  summed := ⟨List.reverse, List.reverse_perm⟩
  ranked := ⟨List.reverse, List.reverse_perm⟩
  drawn := ⟨List.reverse, List.reverse_perm⟩
  classes := backwardSort Report.Count.totalPreorder_le
  pairs := backwardSort totalPreorder_pairLe

/-- Two classes that call each other, one of which also calls a method of a third that is not declared. -/
def threeClasses : Survey :=
  { funcs := [⟨"A.f", "A", false⟩, ⟨"A.k", "A", false⟩, ⟨"B.g", "B", false⟩]
    calls := [⟨"A.f", "B.g", .direct⟩, ⟨"A.f", "B.g", .direct⟩, ⟨"B.g", "A.f", .direct⟩,
      ⟨"A.f", "A.k", .direct⟩, ⟨"B.g", "C.x", .external⟩] }

/-- The edges of the `chart` of `threeClasses`, without a limit. -/
private theorem edges_threeClasses : (chart 0 (crossings threeClasses.funcs threeClasses.calls)).edges =
    [(("A", "B"), 2), (("B", "A"), 1), (("B", "C"), 1)] := by
  have hasymm : Std.Asymm fun d e : (String × String) × Nat => PairBefore d.1 e.1 :=
    ⟨fun _ _ hde hed => hde.asymm hed⟩
  have hascending := (aggregates_chart 0 threeClasses.funcs threeClasses.calls).ascending
  -- a list in strict order is known by its elements
  refine hascending.eq_of_mem_iff (by decide) fun e => ?_
  rw [mem_edges_chart_zero]
  constructor
  · rintro ⟨c, hc, hne, heq⟩
    have hall : ∀ c ∈ threeClasses.calls,
        classOf threeClasses.funcs c.source ≠ classOf threeClasses.funcs c.target →
        (pairOf threeClasses.funcs c, callsBetween threeClasses.funcs threeClasses.calls
          (pairOf threeClasses.funcs c)) ∈ [(("A", "B"), 2), (("B", "A"), 1), (("B", "C"), 1)] := by decide
    exact heq ▸ hall c hc hne
  · revert e
    decide

/-- The classes of the `chart` of `threeClasses`, without a limit. -/
private theorem classes_threeClasses : (chart 0 (crossings threeClasses.funcs threeClasses.calls)).classes =
    [⟨"B", 4⟩, ⟨"A", 3⟩, ⟨"C", 1⟩] := by
  have hranked := (aggregates_chart 0 threeClasses.funcs threeClasses.calls).ranked
  refine hranked.eq_of_mem_iff (by decide) fun k => ?_
  rw [mem_classes_chart_zero, edges_threeClasses]
  constructor
  · rintro ⟨c, hc, hne, n, hn, heq⟩
    -- the edges are known, so that only the names of the calls are left to look at
    have hall : ∀ c ∈ threeClasses.calls,
        classOf threeClasses.funcs c.source ≠ classOf threeClasses.funcs c.target →
        ∀ n ∈ [classOf threeClasses.funcs c.source, classOf threeClasses.funcs c.target],
          (⟨n, ([(("A", "B"), 2), (("B", "A"), 1), (("B", "C"), 1)].map (share n)).sum⟩ : Report.Count) ∈
            [(⟨"B", 4⟩ : Report.Count), ⟨"A", 3⟩, ⟨"C", 1⟩] := by decide
    exact heq ▸ hall c hc hne n hn
  · revert k
    decide

/-- `classDrawing_conserves` on `threeClasses`: four of the five calls lead to another class, in whatever order
    they are added up. There is a place for the two classes with most of them; without a limit, the third one is
    drawn as external. -/
theorem classDrawing_conserves_threeClasses :
    ((chartWith backwardChoices 0 (crossings threeClasses.funcs threeClasses.calls)).edges.map
      Prod.snd).sum = 4 ∧
    (chartWith backwardChoices 2 (crossings threeClasses.funcs threeClasses.calls)).classes =
      [⟨"B", 4⟩, ⟨"A", 3⟩] ∧
    (classDrawing .standard "" 2 threeClasses.funcs threeClasses.calls).nodes = [.named "B", .named "A"] ∧
    (∃ as, .edge (.named "A") (.named "B") as ∈
        (classDrawing .standard "" 2 threeClasses.funcs threeClasses.calls).body ∧
      valueOf? "label" as = some (.markup (sizedText "7" Theme.standard.externalText "2"))) ∧
    ∃ as, .node (.named "C") as ∈ (classDrawing .standard "" 0 threeClasses.funcs threeClasses.calls).body ∧
      valueOf? "label" as = some (label .standard "C" "external").value := by
  obtain ⟨hchoices, hshown, hall⟩ :=
    classDrawing_conserves backwardChoices .standard "" 0 threeClasses.funcs threeClasses.calls
  obtain ⟨hchoices', hshown', hlimited⟩ :=
    classDrawing_conserves backwardChoices .standard "" 2 threeClasses.funcs threeClasses.calls
  -- the chart of two classes is known from that of all
  have hclasses : (chart 2 (crossings threeClasses.funcs threeClasses.calls)).classes =
      [⟨"B", 4⟩, ⟨"A", 3⟩] := by
    rw [hlimited.classes, classes_threeClasses]
    rfl
  have hedge : (("A", "B"), 2) ∈ (chart 2 (crossings threeClasses.funcs threeClasses.calls)).edges := by
    rw [hlimited.mem_edges, hclasses]
    decide
  refine ⟨?_, ?_, ?_, ?_, ?_⟩
  · rw [hchoices, hall.conserved (by decide)]
    decide
  · rw [hchoices', hclasses]
  · rw [hshown'.nodes, hclasses]
    rfl
  · obtain ⟨as, hmem, hshows⟩ := hshown'.traffic _ hedge
    exact ⟨as, hmem, hshows.label⟩
  · have hexternal : lineBelow threeClasses.funcs threeClasses.calls "C" = "external" := by decide
    have hdrawn : ⟨"C", 1⟩ ∈ (chart 0 (crossings threeClasses.funcs threeClasses.calls)).classes := by
      rw [classes_threeClasses]
      decide
    obtain ⟨as, hmem, hlabel⟩ := hshown.classes _ hdrawn
    exact ⟨as, hmem, hexternal ▸ hlabel⟩

end Drawing.ClassChart
end CallAtlas
