import Mathlib.Data.Finset.Card
import Mathlib.Data.List.Sort
import CallAtlas.Proofs.CallGraph.Edges
import CallAtlas.Proofs.Drawing.ClassTraffic
import CallAtlas.Proofs.Report.Owners

/-!
# Statistics count calls

The figures of an analysis are made from calls that were gathered by caller: tables count what leaves and what
enters a method, and how many callers a class has. The greatest counts of each table are reported.
`Stats.computeWith` fills the tables caller by caller; in which order a table lists its entries, and what a sort
does with ties, is left to choice.

Every figure can be counted off the calls directly (`Stats.Counts`). Counts say all there is to say: names with
one count are ranked by name, so that no two rankings of the same counts differ, cut off or not
(`IsTop.unique`). Neither the choices nor the order of the calls make a difference, therefore
(`counts_computeWith`, `Counts.unique`).
-/

namespace CallAtlas.Report

open CallGraph

/-! ### Rankings -/

/-- The greatest `k` of the counts that are not zero, the greatest first and of equal ones the lesser name. -/
def IsTop (k : Nat) (counted : String → Nat) (ranking : List Count) : Prop :=
  ∃ all : List Count, all.Pairwise Count.Before ∧
    (∀ c, c ∈ all ↔ 0 < counted c.name ∧ c.count = counted c.name) ∧ ranking = all.take k

/-- Counts are ranked in one way: at most one list `IsTop`. -/
theorem IsTop.unique {k : Nat} {counted : String → Nat} {xs ys : List Count} (hx : IsTop k counted xs)
    (hy : IsTop k counted ys) : xs = ys := by
  obtain ⟨all, hall, hmem, rfl⟩ := hx
  obtain ⟨all', hall', hmem', rfl⟩ := hy
  -- before they are cut off, both rankings have the same entries, and only one order is allowed
  rw [hall.eq_of_mem_iff hall' fun c => (hmem c).trans (hmem' c).symm]

/-- Counts that are sorted in any way and cut off are the greatest ones (`IsTop`). -/
theorem isTop_of_sorts {counted : String → Nat} {cs ys : List Count} (hnames : (cs.map Count.name).Nodup)
    (hmem : ∀ c, c ∈ cs ↔ 0 < counted c.name ∧ c.count = counted c.name) (hsorts : Sorts Count.le cs ys)
    (k : Nat) : IsTop k counted (ys.take k) := by
  refine ⟨ys, ?_, fun c => hsorts.perm.mem_iff.trans (hmem c), rfl⟩
  have hnodup : (ys.map Count.name).Nodup := (hsorts.perm.map Count.name).nodup_iff.2 hnames
  rw [List.Nodup, List.pairwise_map] at hnodup
  exact hsorts.ordered.imp₂ (fun _ _ => Count.before_of_le) hnodup

/-! ### Tables of counts -/

/-- The table has the counts that are not zero. -/
def Tabulates (m : Std.HashMap String Nat) (counted : String → Nat) : Prop :=
  ∀ name n, m[name]? = some n ↔ 0 < n ∧ n = counted name

/-- `countTable` `Tabulates` how often names are listed. -/
private theorem tabulates_countTable (names : List String) :
    Tabulates (countTable names) fun name => names.count name := by
  intro name n
  show _ ↔ 0 < n ∧ n = names.count name
  by_cases hmem : name ∈ names
  · have hpos := List.count_pos_iff.2 hmem
    rw [Std.HashMap.getElem?_eq_some_getD (mem_countTable.2 hmem), getD_countTable, Option.some.injEq]
    constructor
    · rintro rfl
      exact ⟨hpos, rfl⟩
    · exact fun h => h.2.symm
  · -- names that do not occur are left out, not counted as zero
    have hzero := List.count_eq_zero_of_not_mem hmem
    rw [Std.HashMap.getElem?_eq_none (mt mem_countTable.1 hmem), hzero]
    simp only [reduceCtorEq, false_iff]
    omega

/-- The greatest counts of a table, whose entries are listed in some order and sorted in some way. -/
def topWith (listing : Listing (String × Nat)) (sorting : Sorting Count.le) (k : Nat)
    (m : Std.HashMap String Nat) : List Count :=
  (sorting.sort ((listing.list m.toList).map fun e => ⟨e.1, e.2⟩)).take k

/-- `topWith` gives the greatest counts of a table (`IsTop`), in whatever order it lists its entries. -/
theorem isTop_topWith {m : Std.HashMap String Nat} {counted : String → Nat} (h : Tabulates m counted)
    (listing : Listing (String × Nat)) (sorting : Sorting Count.le) (k : Nat) :
    IsTop k counted (topWith listing sorting k m) := by
  have hperm := (listing.perm m.toList).map fun e => (⟨e.1, e.2⟩ : Count)
  -- a table has each name once, with the count that is asked for
  refine isTop_of_sorts ?_ ?_ (sorting.sorts _) k
  · rw [(hperm.map Count.name).nodup_iff, List.map_map, List.Nodup, List.pairwise_map]
    refine Std.HashMap.distinct_keys_toList.imp fun {a b} hne heq => ?_
    simp only [Function.comp_apply] at heq
    rw [heq, beq_self_eq_true] at hne
    cases hne
  · rintro ⟨name, n⟩
    simp only [hperm.mem_iff, List.mem_map, Prod.exists, Std.HashMap.mem_toList_iff_getElem?_eq_some, h _ _]
    constructor
    · rintro ⟨_, _, ⟨hpos, rfl⟩, heq⟩
      obtain ⟨rfl, rfl⟩ := Count.mk.inj heq
      exact ⟨hpos, rfl⟩
    · rintro ⟨hpos, rfl⟩
      exact ⟨name, _, ⟨hpos, rfl⟩, rfl⟩

/-- `tally` lists the counts that are not zero. -/
private theorem mem_tally {names : List String} {c : Count} :
    c ∈ tally names ↔ 0 < names.count c.name ∧ c.count = names.count c.name := by
  simp only [tally, getD_countTable, List.mem_map, mem_distinct, List.count_pos_iff]
  constructor
  · rintro ⟨name, hname, rfl⟩
    exact ⟨hname, rfl⟩
  · rintro ⟨hname, hcount⟩
    exact ⟨c.name, hname, by rw [← hcount]⟩

/-- `top` of a `tally` `IsTop`. -/
private theorem isTop_top_tally (k : Nat) (names : List String) :
    IsTop k (fun name => names.count name) (top k (tally names)) := by
  refine isTop_of_sorts ?_ (fun _ => mem_tally) (Count.totalPreorder_le.sorts_mergeSort _) k
  rw [Drawing.ClassChart.names_tally]
  exact nodup_distinct names

/-- `IsTop` depends on the counts only. -/
theorem IsTop.congr {k : Nat} {f g : String → Nat} {ranking : List Count} (h : IsTop k f ranking)
    (heq : ∀ name, f name = g name) : IsTop k g ranking :=
  funext heq ▸ h

/-! ### Filling the tables -/

namespace Stats

/-- What is left open: the order in which each table lists its entries, and the sort. -/
structure Choices where
  callers : Listing (String × Nat)
  callees : Listing (String × Nat)
  owners : Listing (String × Nat)
  counts : Sorting Count.le

/-- The tables of an analysis. -/
structure Tables where
  /-- The number of calls that each caller makes. -/
  outgoing : Std.HashMap String Nat := ∅
  /-- The number of calls to each callee. -/
  incoming : Std.HashMap String Nat := ∅
  /-- The number of callers of each class. -/
  owners : Std.HashMap String Nat := ∅

/-- Counts one more of a name. -/
def countIn (m : Std.HashMap String Nat) (name : String) : Std.HashMap String Nat :=
  m.insert name (m.getD name 0 + 1)

/-- Adds a caller with its calls to the tables. -/
def Tables.add (t : Tables) (c : Caller) : Tables where
  outgoing := t.outgoing.insert c.name c.callees.length
  incoming := c.callees.foldl countIn t.incoming
  owners := if ownerOf c.name = "" then t.owners else countIn t.owners (ownerOf c.name)

/-- Adds all callers to the tables, one after the other. -/
def Tables.ofCallers (cs : List Caller) : Tables :=
  cs.foldl Tables.add {}

/-- The figures of an adjacency, made from tables of which what is left open is chosen. -/
def computeWith (ch : Choices) (a : Adjacency) (report : Option Program.Report) (n : Int) : Stats :=
  let k := if n ≤ 0 then defaultTop else n.toNat
  let t := Tables.ofCallers a.callers
  let base : Stats := report.elim {} fun r =>
    { classes := r.classes, methods := r.methods, callSites := r.callSites
      unresolved := r.unresolved, skipped := r.skipped.length }
  { base with
    callers := a.callers.length
    edges := a.edgeCount
    distinctCallees := t.incoming.size
    topCallers := topWith ch.callers ch.counts k t.outgoing
    topCallees := topWith ch.callees ch.counts k t.incoming
    topOwners := topWith ch.owners ch.counts k t.owners }

/-- The classes of callers, those that have one. -/
def callerOwners (cs : List Caller) : List String :=
  (cs.map fun c => ownerOf c.name).filter (· != "")

/-- `Tables.add` caller by caller fills each table by itself. -/
private theorem foldl_add (cs : List Caller) (t : Tables) : cs.foldl Tables.add t =
    { outgoing := (cs.map fun c => (c.name, c.callees.length)).foldl (fun m p => m.insert p.1 p.2) t.outgoing
      incoming := (cs.flatMap Caller.callees).foldl countIn t.incoming
      owners := (callerOwners cs).foldl countIn t.owners } := by
  induction cs generalizing t with
  | nil => rfl
  | cons c cs ih =>
    rw [List.foldl_cons, ih, List.flatMap_cons, List.foldl_append]
    by_cases howner : ownerOf c.name = ""
    · simp [Tables.add, callerOwners, howner]
    · simp [Tables.add, callerOwners, howner]

/-- Caller by caller, `Tables.ofCallers` comes to count all calls and all classes at once. -/
theorem ofCallers_eq (cs : List Caller) : Tables.ofCallers cs =
    { outgoing := lastTable (cs.map fun c => (c.name, c.callees.length))
      incoming := countTable (cs.flatMap Caller.callees)
      owners := countTable (callerOwners cs) } :=
  foldl_add cs {}

/-! ### Counting calls -/

section
variable (naming : Naming) (edges : List Edge)

/-- The callers of calls, one for each. -/
def callersOf : List String :=
  edges.map fun e => naming.name e.caller

/-- The callees of calls, one for each. -/
def calleesOf : List String :=
  edges.map fun e => naming.name e.callee

/-- The calls that leave a method. -/
def callsFrom (name : String) : List Edge :=
  edges.filter fun e => naming.name e.caller == name

/-- The callers of `ofEdges`, each with the callees of its calls. -/
private theorem callers_ofEdges : (Adjacency.ofEdges naming edges).callers =
    (Text.sortDistinct (callersOf naming edges)).map fun name =>
      ⟨name, calleesOf naming (callsFrom naming edges name)⟩ := by
  simp only [Adjacency.ofEdges, getD_groups, List.filter_map, List.map_map]
  rfl

/-- The `names` of `ofEdges` are not repeated. -/
theorem nodup_names : (Adjacency.ofEdges naming edges).names.Nodup := by
  rw [Adjacency.names_ofEdges]
  exact Text.nodup_sortDistinct _

/-- The `names` of `ofEdges` are those of `callersOf`. -/
private theorem toFinset_names : (Adjacency.ofEdges naming edges).names.toFinset =
    (callersOf naming edges).toFinset := by
  ext name
  rw [List.mem_toFinset, List.mem_toFinset, Adjacency.names_ofEdges, Text.mem_sortDistinct, callersOf]

/-- The callers of `ofEdges` are as many as there are different `callersOf`. -/
private theorem length_callers :
    (Adjacency.ofEdges naming edges).callers.length = (callersOf naming edges).toFinset.card := by
  rw [← toFinset_names, List.toFinset_card_of_nodup (nodup_names naming edges), Adjacency.names,
    List.length_map]

/-- All callees of all callers are `calleesOf` the calls. -/
theorem perm_callees :
    ((Adjacency.ofEdges naming edges).callers.flatMap Caller.callees).Perm (calleesOf naming edges) := by
  -- every call leaves one of the callers, so that the groups leave no call out
  have hcaller : ∀ e ∈ edges, naming.name e.caller ∈ Text.sortDistinct (callersOf naming edges) :=
    fun e he => Text.mem_sortDistinct.2 (List.mem_map.2 ⟨e, he, rfl⟩)
  have hgroups := perm_flatMap_filter_of_mem (Text.nodup_sortDistinct _) hcaller
  rw [callers_ofEdges, List.flatMap_map]
  simpa only [calleesOf, callsFrom, List.map_flatMap] using hgroups.map fun e => naming.name e.callee

/-- As many calls leave a method as it is listed in `callersOf`. -/
private theorem length_calleesOf_callsFrom (name : String) :
    (calleesOf naming (callsFrom naming edges name)).length = (callersOf naming edges).count name := by
  rw [calleesOf, List.length_map, callsFrom, ← List.countP_eq_length_filter, callersOf, List.count_eq_countP,
    List.countP_map]
  rfl

/-- Each caller is there once, with as many callees as calls leave it. -/
theorem exists_caller_iff {name : String} {n : Nat} :
    (∃ c ∈ (Adjacency.ofEdges naming edges).callers, c.name = name ∧ c.callees.length = n) ↔
      0 < n ∧ n = (callersOf naming edges).count name := by
  rw [callers_ofEdges]
  constructor
  · rintro ⟨c, hc, rfl, rfl⟩
    obtain ⟨name, hname, rfl⟩ := List.mem_map.1 hc
    -- callees are gathered under the caller, repeats included
    have hcount := length_calleesOf_callsFrom naming edges name
    exact ⟨hcount ▸ List.count_pos_iff.2 (Text.mem_sortDistinct.1 hname), hcount⟩
  · rintro ⟨hpos, rfl⟩
    have hname := Text.mem_sortDistinct.2 (List.count_pos_iff.1 hpos)
    exact ⟨_, List.mem_map.2 ⟨name, hname, rfl⟩, rfl, length_calleesOf_callsFrom naming edges name⟩

/-- The number of callers in whose name `owner` stands, before the last dot in front of the first
    parenthesis. -/
def callersIn (owner : String) : Nat :=
  if owner = "" then 0 else ((callersOf naming edges).toFinset.filter fun name => OwnerStands owner name).card

/-- A class is counted among `callerOwners` as often as `callersIn` says. -/
private theorem count_callerOwners (owner : String) :
    (callerOwners (Adjacency.ofEdges naming edges).callers).count owner = callersIn naming edges owner := by
  unfold callerOwners callersIn
  split
  · next hempty =>
    subst hempty
    exact List.count_eq_zero_of_not_mem (by simp)
  · next hne =>
    -- callers are listed once each, so their number in a class is that of a set
    have hnodup := (nodup_names naming edges).filter fun name => ownerOf name == owner
    have hcard : (callersOf naming edges).toFinset.filter (fun name => OwnerStands owner name) =
        ((Adjacency.ofEdges naming edges).names.filter fun name => ownerOf name == owner).toFinset := by
      rw [← toFinset_names]
      ext name
      simp [ownerOf_eq_iff hne]
    rw [hcard, List.toFinset_card_of_nodup hnodup, ← List.countP_eq_length_filter,
      List.count_filter (by simpa using hne), List.count_eq_countP, List.countP_map, Adjacency.names,
      List.countP_map]
    rfl

/-! ### The figures -/

/-- The figures are those of the calls, and rankings have `k` entries at most. -/
structure Counts (s : Stats) (k : Nat) : Prop where
  unreported : s.classes = 0 ∧ s.methods = 0 ∧ s.callSites = 0 ∧ s.unresolved = 0 ∧ s.skipped = 0
  callers : s.callers = (callersOf naming edges).toFinset.card
  edgeCount : s.edges = edges.length
  distinctCallees : s.distinctCallees = (calleesOf naming edges).toFinset.card
  topCallers : IsTop k (fun name => (callersOf naming edges).count name) s.topCallers
  topCallees : IsTop k (fun name => (calleesOf naming edges).count name) s.topCallees
  topOwners : IsTop k (callersIn naming edges) s.topOwners

/-- The number of entries that are asked for. -/
def topLength (n : Int) : Nat :=
  if 0 < n then n.toNat else 20

/-- `topLength` is the number that `compute` takes. -/
private theorem topLength_eq (n : Int) : (if n ≤ 0 then defaultTop else n.toNat) = topLength n := by
  unfold topLength defaultTop
  split <;> split <;> omega

variable {naming edges}

/-- There are no two ways to count: `Counts` holds of one result only. -/
theorem Counts.unique {s t : Stats} {k : Nat} (hs : Counts naming edges s k) (ht : Counts naming edges t k) :
    s = t := by
  obtain ⟨hclasses, hmethods, hsites, hunresolved, hskipped⟩ := hs.unreported
  obtain ⟨hclasses', hmethods', hsites', hunresolved', hskipped'⟩ := ht.unreported
  have hcallers := hs.callers.trans ht.callers.symm
  have hedges := hs.edgeCount.trans ht.edgeCount.symm
  have hcallees := hs.distinctCallees.trans ht.distinctCallees.symm
  have htopCallers := hs.topCallers.unique ht.topCallers
  have htopCallees := hs.topCallees.unique ht.topCallees
  have htopOwners := hs.topOwners.unique ht.topOwners
  -- both records have the same fields
  cases s
  cases t
  simp_all

/-- `Counts` does not depend on the order of the calls. -/
theorem Counts.perm {edges' : List Edge} (hperm : edges'.Perm edges) {s : Stats} {k : Nat}
    (h : Counts naming edges' s k) : Counts naming edges s k := by
  have hcallers : (callersOf naming edges').Perm (callersOf naming edges) := hperm.map _
  have hcallees : (calleesOf naming edges').Perm (calleesOf naming edges) := hperm.map _
  have hset := List.toFinset_eq_of_perm _ _ hcallers
  have hset' := List.toFinset_eq_of_perm _ _ hcallees
  constructor
  · exact h.unreported
  · rw [h.callers, hset]
  · rw [h.edgeCount, hperm.length_eq]
  · rw [h.distinctCallees, hset']
  · exact h.topCallers.congr fun name => hcallers.count_eq name
  · exact h.topCallees.congr fun name => hcallees.count_eq name
  · exact h.topOwners.congr fun owner => by simp only [callersIn, hset]

variable (naming edges)

/-- `distinct` names are as many as the set has. -/
private theorem length_distinct (names : List String) : (distinct names).length = names.toFinset.card := by
  rw [← List.toFinset_card_of_nodup (nodup_distinct names)]
  congr 1
  ext name
  rw [List.mem_toFinset, List.mem_toFinset, mem_distinct]

/-- The callees of all callers are as many as those of the calls, repeats left out. -/
private theorem length_distinct_callees :
    (distinct ((Adjacency.ofEdges naming edges).callers.flatMap Caller.callees)).length =
      (calleesOf naming edges).toFinset.card := by
  rw [length_distinct, List.toFinset_eq_of_perm _ _ (perm_callees naming edges)]

/-- The table of outgoing calls `Tabulates` `callersOf`. -/
private theorem tabulates_outgoing :
    Tabulates (lastTable ((Adjacency.ofEdges naming edges).callers.map fun c => (c.name, c.callees.length)))
      fun name => (callersOf naming edges).count name := by
  intro name n
  -- a later entry would replace an earlier one of the same caller, but there is none
  have hkeys : (((Adjacency.ofEdges naming edges).callers.map fun c => (c.name, c.callees.length)).map
      Prod.fst).Nodup := by
    rw [List.map_map]
    exact nodup_names naming edges
  rw [getElem?_lastTable_eq_some hkeys, ← exists_caller_iff, List.mem_map]
  simp only [Prod.mk.injEq]

/-- The ranking of callers that `compute` makes `IsTop`. -/
private theorem isTop_callers (k : Nat) : IsTop k (fun name => (callersOf naming edges).count name)
    (top k ((Adjacency.ofEdges naming edges).callers.map fun c => ⟨c.name, c.callees.length⟩)) := by
  refine isTop_of_sorts ?_ (fun c => ?_) (Count.totalPreorder_le.sorts_mergeSort _) k
  · rw [List.map_map]
    exact nodup_names naming edges
  · rw [List.mem_map]
    constructor
    · rintro ⟨caller, hcaller, rfl⟩
      obtain ⟨hpos, hcount⟩ := (exists_caller_iff naming edges).1 ⟨caller, hcaller, rfl, rfl⟩
      exact ⟨hcount ▸ hpos, congrArg Nat.cast hcount⟩
    · -- a name with calls is one of the callers
      rintro ⟨hpos, hcount⟩
      obtain ⟨caller, hcaller, hname, hlength⟩ := (exists_caller_iff naming edges).2 ⟨hpos, rfl⟩
      exact ⟨caller, hcaller, by rw [hname, hlength, ← hcount]⟩

/-- `computeWith` counts what `Counts` says, whatever is chosen. -/
theorem counts_computeWith (ch : Choices) (n : Int) :
    Counts naming edges (computeWith ch (.ofEdges naming edges) none n) (topLength n) := by
  have hcallees := perm_callees naming edges
  have htop := topLength_eq n
  constructor
  · -- without a report of the build its figures are zero
    exact ⟨rfl, rfl, rfl, rfl, rfl⟩
  · exact congrArg Nat.cast (length_callers naming edges)
  · exact congrArg Nat.cast (Adjacency.gathers_ofEdges naming edges).edgeCount
  · simp only [computeWith, ofCallers_eq]
    rw [← Std.HashMap.length_toList, (perm_toList_countTable _).length_eq, List.length_map,
      length_distinct_callees]
  · simp only [computeWith, ofCallers_eq, htop]
    exact isTop_topWith (tabulates_outgoing naming edges) _ _ _
  · simp only [computeWith, ofCallers_eq, htop]
    exact (isTop_topWith (tabulates_countTable _) _ _ _).congr fun name => hcallees.count_eq name
  · simp only [computeWith, ofCallers_eq, htop]
    exact (isTop_topWith (tabulates_countTable _) _ _ _).congr (count_callerOwners naming edges)

/-- `compute` counts what `Counts` says. -/
private theorem counts_compute (n : Int) :
    Counts naming edges (compute (.ofEdges naming edges) none n) (topLength n) := by
  have hcallees := perm_callees naming edges
  have htop := topLength_eq n
  constructor
  · exact ⟨rfl, rfl, rfl, rfl, rfl⟩
  · exact congrArg Nat.cast (length_callers naming edges)
  · exact congrArg Nat.cast (Adjacency.gathers_ofEdges naming edges).edgeCount
  · exact congrArg Nat.cast (length_distinct_callees naming edges)
  · simp only [compute, htop]
    exact isTop_callers naming edges _
  · simp only [compute, htop]
    exact (isTop_top_tally _ _).congr fun name => hcallees.count_eq name
  · -- classes are counted by callers, not by calls
    simp only [compute, htop, Adjacency.names, List.map_map]
    exact (isTop_top_tally _ _).congr (count_callerOwners naming edges)

end

/-- The figures of `compute` are counted off the calls (`Counts`). Neither the order of the calls nor that of
    any table makes a difference. -/
theorem compute_counts (naming : Naming) (edges : List Edge) (n : Int) :
    Counts naming edges (compute (.ofEdges naming edges) none n) (topLength n) ∧
    ∀ (ch : Choices) (edges' : List Edge), edges'.Perm edges →
      computeWith ch (.ofEdges naming edges') none n = compute (.ofEdges naming edges) none n := by
  refine ⟨counts_compute naming edges n, fun ch edges' hperm => ?_⟩
  exact ((counts_computeWith naming edges' ch n).perm hperm).unique (counts_compute naming edges n)

/-- A listing of whatever a table holds, backwards. -/
def backwardListing {α : Type} : Listing α :=
  ⟨List.reverse, List.reverse_perm⟩

/-- All choices made the other way round. -/
def backwardChoices : Choices where
  callers := backwardListing
  callees := backwardListing
  owners := backwardListing
  counts := backwardSort Count.totalPreorder_le

/-- A call from one method to another, somewhere. -/
def callBetween (owner name owner' name' : String) : Edge :=
  ⟨.ofMethod owner name [], .ofMethod owner' name' [], noSite⟩

/-- Two methods of a class that call a third one once each. -/
def twoCalls : List Edge :=
  [callBetween "p/A" "g" "B" "h", callBetween "p/A" "f" "B" "h"]

/-- `compute_counts` on `twoCalls`: of two methods that call equally often, the one with the lesser name is left
    if there is room for one. Both call the same method and are of one class. -/
theorem compute_counts_twoCalls :
    (computeWith backwardChoices (.ofEdges .short twoCalls.reverse) none 1).callers = 2 ∧
    (computeWith backwardChoices (.ofEdges .short twoCalls.reverse) none 1).distinctCallees = 1 ∧
    (computeWith backwardChoices (.ofEdges .short twoCalls.reverse) none 1).topCallers = [⟨"p.A.f", 1⟩] ∧
    (computeWith backwardChoices (.ofEdges .short twoCalls.reverse) none 1).topCallees = [⟨"B.h", 2⟩] ∧
    (computeWith backwardChoices (.ofEdges .short twoCalls.reverse) none 1).topOwners = [⟨"p.A", 2⟩] := by
  obtain ⟨hcounts, hsame⟩ := compute_counts .short twoCalls 1
  have hcallers : callersOf .short twoCalls = ["p.A.g", "p.A.f"] := by decide
  have hcallees : calleesOf .short twoCalls = ["B.h", "B.h"] := by decide
  rw [hsame backwardChoices _ (List.reverse_perm _)]
  refine ⟨?_, ?_, ?_, ?_, ?_⟩
  · rw [hcounts.callers, hcallers]
    decide
  · rw [hcounts.distinctCallees, hcallees]
    decide
  · -- both call once, so that the name decides which of them is cut off
    refine hcounts.topCallers.unique ⟨[⟨"p.A.f", 1⟩, ⟨"p.A.g", 1⟩], by decide, ?_, rfl⟩
    rintro ⟨name, n⟩
    rw [hcallers]
    by_cases hf : name = "p.A.f"
    · simp [hf]
    · by_cases hg : name = "p.A.g"
      · simp [hg]
      · simp [hf, hg, Ne.symm hf, Ne.symm hg]
  · refine hcounts.topCallees.unique ⟨[⟨"B.h", 2⟩], by decide, ?_, rfl⟩
    rintro ⟨name, n⟩
    rw [hcallees]
    by_cases hname : name = "B.h"
    · simp [hname]
    · simp [hname, Ne.symm hname]
  · refine hcounts.topOwners.unique ⟨[⟨"p.A", 2⟩], by decide, ?_, rfl⟩
    rintro ⟨owner, n⟩
    -- both methods are of the class in front of the last dot
    have hprefix : ownerPrefix "p.A.g" = "p.A" ∧ ownerPrefix "p.A.f" = "p.A" := by decide
    by_cases howner : owner = "p.A"
    · have hcount : callersIn .short twoCalls "p.A" = 2 := by decide
      simp [howner, hcount]
    · -- no caller is of another class
      have hcount : callersIn .short twoCalls owner = 0 := by
        simp [callersIn, hcallers, Finset.filter_insert, Finset.filter_singleton, ownerStands_iff, hprefix,
          Ne.symm howner]
      simp [howner, hcount]

end Stats

end CallAtlas.Report
