import Mathlib.Data.Finset.Card
import Mathlib.Data.Finset.Dedup
import Mathlib.Logic.Relation
import CallAtlas.Proofs.Closure

/-!
# Searches with a queue

A search takes one item after the other from a queue and comes across all that the item leads to. What it
has not seen before goes to the end of the queue, if it counts. Nothing bounds the search from outside; that
it comes to its end is proved (`exists_ends`): each turn takes an item away, and each item that is added is
one thing less that is not seen.

What one turn does is said once (`exists_met`). A search that starts at one thing finds exactly what links
lead to from there (`Ends.nodup_and_mem_found_iff`).

A search may also mark things late, when it takes them from the queue: it finds the same in the same order
(`exists_endsTaking`). Computing a `closure` is a search with a queue as well (`exists_ends_closure`).
-/

namespace CallAtlas

/-- How a search goes on: the thing that an item is about, the items that it leads to, and which things
    count. -/
structure Worklist (ι α : Type) where
  thing : ι → α
  next : ι → List ι
  counts : α → Bool

namespace Worklist

/-- A search under way: the things that it came across, and the items that it found, of which those in the queue
    still wait. -/
structure State (ι α : Type) where
  seen : List α
  found : List ι
  queue : List ι

variable {ι α : Type} [DecidableEq α] (w : Worklist ι α)

/-- Comes across an item. -/
def meet (s : State ι α) (i : ι) : State ι α :=
  if w.thing i ∈ s.seen then s
  else if w.counts (w.thing i) then ⟨w.thing i :: s.seen, s.found ++ [i], s.queue ++ [i]⟩
  else { s with seen := w.thing i :: s.seen }

/-- One turn of the search; there is none once the queue is empty. -/
def turn (s : State ι α) : Option (State ι α) :=
  match s.queue with
  | [] => none
  | i :: queue => some ((w.next i).foldl w.meet { s with queue })

/-- The search goes on from one state until it stops in another. -/
structure Ends (s t : State ι α) : Prop where
  turns : Relation.ReflTransGen (fun s t => w.turn s = some t) s t
  stops : t.queue = []

/-! ### What a turn does -/

/-- What has come of meeting some items: each thing is seen, and `news` are found, one item for each thing that
    counts and was not seen before. -/
structure Met (s : State ι α) (items news : List ι) (t : State ι α) : Prop where
  seen : ∀ x, x ∈ t.seen ↔ x ∈ s.seen ∨ ∃ i ∈ items, w.thing i = x
  found : t.found = s.found ++ news
  queue : t.queue = s.queue ++ news
  new : ∀ i ∈ news, i ∈ items ∧ w.counts (w.thing i) = true ∧ w.thing i ∉ s.seen
  once : (news.map w.thing).Nodup
  all : ∀ i ∈ items, w.counts (w.thing i) = true → w.thing i ∉ s.seen →
    ∃ j ∈ news, w.thing j = w.thing i

omit [DecidableEq α] in
/-- An item whose thing was seen changes nothing of what was `Met`. -/
theorem Met.skip {s t : State ι α} {i : ι} {items news : List ι} (hi : w.thing i ∈ s.seen)
    (h : w.Met s items news t) : w.Met s (i :: items) news t := by
  -- the item is met without effect, and the others as before
  refine { h with seen := fun x => ?_, new := fun j hj => ?_, all := fun j hj hcounts hunseen => ?_ }
  · rw [h.seen]
    constructor
    · rintro (hx | ⟨j, hj, rfl⟩)
      · exact .inl hx
      · exact .inr ⟨j, List.mem_cons_of_mem i hj, rfl⟩
    · rintro (hx | ⟨j, hj, rfl⟩)
      · exact .inl hx
      · rcases List.mem_cons.1 hj with rfl | hj
        · exact .inl hi
        · exact .inr ⟨j, hj, rfl⟩
  · exact ⟨List.mem_cons_of_mem i (h.new j hj).1, (h.new j hj).2⟩
  · rcases List.mem_cons.1 hj with rfl | hj
    · exact absurd hi hunseen
    · exact h.all j hj hcounts hunseen

/-- An item whose thing is new is seen, and found if it counts. -/
theorem Met.cons {s t : State ι α} {i : ι} {items news : List ι} (hi : w.thing i ∉ s.seen)
    (h : w.Met (w.meet s i) items news t) :
    w.Met s (i :: items) (if w.counts (w.thing i) then i :: news else news) t := by
  -- the thing is marked, whether it counts or not
  have hseen : (w.meet s i).seen = w.thing i :: s.seen := by
    rw [meet, if_neg hi]
    split <;> rfl
  have hx : ∀ x, x ∈ t.seen ↔ x ∈ s.seen ∨ ∃ j ∈ i :: items, w.thing j = x := by
    intro x
    rw [h.seen, hseen]
    simp only [List.mem_cons, exists_eq_or_imp]
    grind
  have hnew : ∀ j ∈ news, j ∈ items ∧ w.counts (w.thing j) = true ∧ w.thing j ≠ w.thing i ∧
      w.thing j ∉ s.seen := by
    intro j hj
    obtain ⟨hmem, hcounts, hunseen⟩ := h.new j hj
    rw [hseen, List.mem_cons, not_or] at hunseen
    exact ⟨hmem, hcounts, hunseen⟩
  -- a later item of the same thing is not new any more
  have hall : ∀ j ∈ items, w.counts (w.thing j) = true → w.thing j ∉ s.seen →
      w.thing j = w.thing i ∨ ∃ k ∈ news, w.thing k = w.thing j := by
    intro j hj hcounts hunseen
    by_cases hji : w.thing j = w.thing i
    · exact .inl hji
    · refine .inr (h.all j hj hcounts ?_)
      rw [hseen, List.mem_cons, not_or]
      exact ⟨hji, hunseen⟩
  -- found and queued only if it counts; the rest is the same for both
  by_cases hcounts : w.counts (w.thing i) = true
  · rw [if_pos hcounts]
    have hmeet : w.meet s i = ⟨w.thing i :: s.seen, s.found ++ [i], s.queue ++ [i]⟩ := by
      rw [meet, if_neg hi, if_pos hcounts]
    refine ⟨hx, ?_, ?_, ?_, ?_, ?_⟩
    · rw [h.found, hmeet, List.append_assoc, List.singleton_append]
    · rw [h.queue, hmeet, List.append_assoc, List.singleton_append]
    · intro j hj
      rcases List.mem_cons.1 hj with rfl | hj
      · exact ⟨List.mem_cons_self, hcounts, hi⟩
      · exact ⟨List.mem_cons_of_mem i (hnew j hj).1, (hnew j hj).2.1, (hnew j hj).2.2.2⟩
    · rw [List.map_cons, List.nodup_cons]
      refine ⟨fun hmem => ?_, h.once⟩
      obtain ⟨j, hj, heq⟩ := List.mem_map.1 hmem
      exact (hnew j hj).2.2.1 heq
    · intro j hj hj' hunseen
      rcases List.mem_cons.1 hj with rfl | hj
      · exact ⟨j, List.mem_cons_self, rfl⟩
      · rcases hall j hj hj' hunseen with heq | ⟨k, hk, heq⟩
        · exact ⟨i, List.mem_cons_self, heq.symm⟩
        · exact ⟨k, List.mem_cons_of_mem i hk, heq⟩
  · rw [if_neg hcounts]
    have hmeet : w.meet s i = { s with seen := w.thing i :: s.seen } := by
      rw [meet, if_neg hi, if_neg hcounts]
    refine ⟨hx, ?_, ?_, ?_, h.once, ?_⟩
    · rw [h.found, hmeet]
    · rw [h.queue, hmeet]
    · exact fun j hj => ⟨List.mem_cons_of_mem i (hnew j hj).1, (hnew j hj).2.1, (hnew j hj).2.2.2⟩
    · intro j hj hj' hunseen
      rcases List.mem_cons.1 hj with rfl | hj
      · exact absurd hj' hcounts
      · -- a later item of this thing cannot count either
        rcases hall j hj hj' hunseen with heq | hfound
        · rw [heq] at hj'
          exact absurd hj' hcounts
        · exact hfound

/-- `meet` for one item after the other: what has come of them is `Met`. -/
theorem exists_met (s : State ι α) (items : List ι) :
    ∃ news, w.Met s items news (items.foldl w.meet s) := by
  -- the state changes with each item that is met
  induction items generalizing s with
  | nil => exact ⟨[], by simp, by simp, by simp, by simp, by simp, by simp⟩
  | cons i items ih =>
    rw [List.foldl_cons]
    by_cases hi : w.thing i ∈ s.seen
    · have hmeet : w.meet s i = s := by rw [meet, if_pos hi]
      rw [hmeet]
      obtain ⟨news, hnews⟩ := ih s
      exact ⟨news, hnews.skip w hi⟩
    · obtain ⟨news, hnews⟩ := ih (w.meet s i)
      exact ⟨_, hnews.cons w hi⟩

/-- A `turn` takes the first item of the queue and meets what it leads to. -/
theorem exists_met_of_turn {s t : State ι α} (h : w.turn s = some t) :
    ∃ i queue news, s.queue = i :: queue ∧ w.Met { s with queue } (w.next i) news t := by
  unfold turn at h
  cases hqueue : s.queue with
  | nil => simp [hqueue] at h
  | cons i queue =>
    simp only [hqueue, Option.some.injEq] at h
    subst h
    obtain ⟨news, hnews⟩ := w.exists_met { s with queue } (w.next i)
    exact ⟨i, queue, news, rfl, hnews⟩

/-! ### The search comes to its end -/

/-- What can still happen: things that are not seen, and items that wait. -/
def ahead (things : Finset α) (s : State ι α) : Nat :=
  (things.filter (· ∉ s.seen)).card + s.queue.length

/-- A `turn` leaves less `ahead`: every item that is added stands for a thing that is not unseen any more. -/
theorem ahead_turn {things : Finset α}
    (hthings : ∀ i, ∀ j ∈ w.next i, w.counts (w.thing j) = true → w.thing j ∈ things) {s t : State ι α}
    (h : w.turn s = some t) : ahead things t < ahead things s := by
  obtain ⟨i, queue, news, hqueue, hmet⟩ := w.exists_met_of_turn h
  -- what is new is seen now, so that it is not among the unseen
  have hdisjoint : Disjoint (things.filter (· ∉ t.seen)) (news.map w.thing).toFinset := by
    rw [Finset.disjoint_left]
    intro x hx hnew
    rw [List.mem_toFinset, List.mem_map] at hnew
    obtain ⟨j, hj, rfl⟩ := hnew
    exact (Finset.mem_filter.1 hx).2 ((hmet.seen _).2 (.inr ⟨j, (hmet.new j hj).1, rfl⟩))
  -- and it was unseen before, being one of the finitely many things
  have hsubset : things.filter (· ∉ t.seen) ∪ (news.map w.thing).toFinset ⊆
      things.filter (· ∉ s.seen) := by
    intro x hx
    rw [Finset.mem_filter]
    rcases Finset.mem_union.1 hx with hx | hx
    · obtain ⟨hmem, hunseen⟩ := Finset.mem_filter.1 hx
      exact ⟨hmem, fun hseen => hunseen ((hmet.seen x).2 (.inl hseen))⟩
    · rw [List.mem_toFinset, List.mem_map] at hx
      obtain ⟨j, hj, rfl⟩ := hx
      obtain ⟨hmem, hcounts, hunseen⟩ := hmet.new j hj
      exact ⟨hthings i j hmem hcounts, hunseen⟩
  have hcard := Finset.card_le_card hsubset
  rw [Finset.card_union_of_disjoint hdisjoint, List.toFinset_card_of_nodup hmet.once,
    List.length_map] at hcard
  have hlength : t.queue.length = queue.length + news.length := by
    rw [hmet.queue, List.length_append]
  simp only [ahead, hqueue, List.length_cons]
  omega

/-- A search comes to its end if what it can find is among finitely many things. -/
theorem exists_ends (things : Finset α)
    (hthings : ∀ i, ∀ j ∈ w.next i, w.counts (w.thing j) = true → w.thing j ∈ things)
    (s : State ι α) : ∃ t, w.Ends s t := by
  -- on what is ahead, which every turn makes less
  induction hn : ahead things s using Nat.strongRecOn generalizing s with
  | ind n ih =>
    cases hturn : w.turn s with
    | none =>
      refine ⟨s, .refl, ?_⟩
      unfold turn at hturn
      split at hturn
      · assumption
      · contradiction
    | some t =>
      obtain ⟨u, hu⟩ := ih _ (hn ▸ w.ahead_turn hthings hturn) t rfl
      exact ⟨u, .head hturn hu.turns, hu.stops⟩

/-! ### Searches that mark late -/

/-- One turn of a search whose queue holds all items that it came across. Whether the thing of an item was seen
    is only asked when the item is taken. -/
def take (s : State ι α) : Option (State ι α) :=
  match s.queue with
  | [] => none
  | i :: queue => some (
    if w.thing i ∈ s.seen then { s with queue }
    else if w.counts (w.thing i) then ⟨w.thing i :: s.seen, s.found ++ [i], queue ++ w.next i⟩
    else { s with seen := w.thing i :: s.seen, queue })

/-- The search that marks late goes on from one state until it stops in another. -/
structure EndsTaking (s t : State ι α) : Prop where
  turns : Relation.ReflTransGen (fun s t => w.take s = some t) s t
  stops : t.queue = []

/-- The search that marks at once, where it has met all items that still wait. -/
def caughtUp (s : State ι α) : State ι α :=
  s.queue.foldl w.meet { s with queue := [] }

/-- `meet` only adds to the end of the queue. -/
theorem foldl_meet_queue (items : List ι) (s : State ι α) (front : List ι) :
    items.foldl w.meet { s with queue := front ++ s.queue } =
      { items.foldl w.meet s with queue := front ++ (items.foldl w.meet s).queue } := by
  induction items generalizing s with
  | nil => rfl
  | cons i items ih =>
    -- one item: it is passed over, or added at the end
    have hmeet : w.meet { s with queue := front ++ s.queue } i =
        { w.meet s i with queue := front ++ (w.meet s i).queue } := by
      unfold meet
      split
      · rfl
      · split <;> simp
    rw [List.foldl_cons, List.foldl_cons, hmeet, ih]

/-- A `take` of the late search drops an item that means nothing to the other search, or is a turn of both. -/
theorem caughtUp_take {s t : State ι α} (h : w.take s = some t) :
    w.caughtUp t = w.caughtUp s ∧ t.queue.length < s.queue.length ∨
      w.turn (w.caughtUp s) = some (w.caughtUp t) := by
  unfold take at h
  cases hqueue : s.queue with
  | nil => simp [hqueue] at h
  | cons i queue =>
    simp only [hqueue, Option.some.injEq] at h
    subst h
    -- an item that was seen, or does not count, only makes the queue shorter
    by_cases hseen : w.thing i ∈ s.seen
    · left
      simp [caughtUp, hqueue, meet, hseen]
    · by_cases hcounts : w.counts (w.thing i) = true
      · -- what waits behind the item was met already, so that only its own links are new
        have hmet : w.caughtUp s = queue.foldl w.meet ⟨w.thing i :: s.seen, s.found ++ [i], [i]⟩ := by
          simp [caughtUp, hqueue, meet, hseen, hcounts]
        have hfront := w.foldl_meet_queue queue ⟨w.thing i :: s.seen, s.found ++ [i], []⟩ [i]
        rw [List.append_nil, ← hmet] at hfront
        right
        rw [if_neg hseen, if_pos hcounts, hfront, turn, caughtUp, List.foldl_append]
        rfl
      · left
        simp [caughtUp, hqueue, meet, hseen, hcounts]

/-- After some turns the late search has stopped, or both have made a turn. -/
theorem exists_takes (s : State ι α) : ∃ t, Relation.ReflTransGen (fun s t => w.take s = some t) s t ∧
    (t.queue = [] ∧ t = w.caughtUp s ∨ w.turn (w.caughtUp s) = some (w.caughtUp t)) := by
  -- on the length of the queue, which gets shorter with each item that is dropped
  induction hn : s.queue.length using Nat.strongRecOn generalizing s with
  | ind n ih =>
    cases hqueue : s.queue with
    | nil =>
      refine ⟨s, .refl, .inl ⟨hqueue, ?_⟩⟩
      rw [caughtUp, hqueue, List.foldl_nil, ← hqueue]
    | cons i queue =>
      obtain ⟨t, htake⟩ : ∃ t, w.take s = some t := by
        rw [take, hqueue]
        exact ⟨_, rfl⟩
      rcases w.caughtUp_take htake with ⟨hsame, hshorter⟩ | hturn
      · obtain ⟨u, hturns, hu⟩ := ih _ (hn ▸ hshorter) t rfl
        rw [hsame] at hu
        exact ⟨u, .head htake hturns, hu⟩
      · exact ⟨t, .single htake, .inr hturn⟩

/-- A search that marks late comes to its end if the one that marks at once does, and finds the same items in
    the same order. -/
theorem exists_endsTaking {s u : State ι α} (h : w.Ends (w.caughtUp s) u) :
    ∃ t, w.EndsTaking s t ∧ t.found = u.found := by
  obtain ⟨hturns, hstops⟩ := h
  -- by induction on the turns of the other search
  generalize hstart : w.caughtUp s = a at hturns
  induction hturns using Relation.ReflTransGen.head_induction_on generalizing s with
  | refl =>
    obtain ⟨t, hs, ⟨hqueue, rfl⟩ | hturn⟩ := w.exists_takes s
    · exact ⟨_, ⟨hs, hqueue⟩, by rw [hstart]⟩
    · rw [hstart, turn, hstops] at hturn
      cases hturn
  | head hturn _ ih =>
    obtain ⟨t, hs, ⟨hqueue, rfl⟩ | hturn'⟩ := w.exists_takes s
    · rw [← hstart, turn, hqueue] at hturn
      cases hturn
    · rw [hstart, hturn] at hturn'
      obtain ⟨v, hv, hfound⟩ := ih (Option.some.inj hturn').symm
      exact ⟨v, ⟨hs.trans hv.turns, hv.stops⟩, hfound⟩

/-! ### Searches from one thing -/

section
variable {next : α → List α} {counts : α → Bool} {start : α} {s t : State α α}

/-- A search that starts at one thing. -/
def State.startAt (start : α) : State α α :=
  ⟨[start], [], [start]⟩

/-- A link leads from one thing to another that counts. -/
def Link (next : α → List α) (counts : α → Bool) (a b : α) : Prop :=
  b ∈ next a ∧ counts b = true

/-- What holds of a search from one thing at every turn. All that was found is led to, and what counts among the
    things that were seen was found. Links out of what does not wait any more lead to what was found. -/
structure Sound (next : α → List α) (counts : α → Bool) (start : α) (s : State α α) : Prop where
  seen_start : start ∈ s.seen
  seen_found : ∀ x ∈ s.found, x ∈ s.seen
  other : start ∉ s.found
  once : s.found.Nodup
  reached : ∀ x ∈ s.found, Relation.TransGen (Link next counts) start x
  waiting : ∀ x ∈ s.queue, x = start ∨ x ∈ s.found
  kept : ∀ x ∈ s.seen, counts x = true → x = start ∨ x ∈ s.found
  closed : ∀ x, x = start ∨ x ∈ s.found → x ∉ s.queue → ∀ y, Link next counts x y →
    y = start ∨ y ∈ s.found

omit [DecidableEq α] in
/-- `Sound` holds when the search starts. -/
theorem sound_startAt (next : α → List α) (counts : α → Bool) (start : α) :
    Sound next counts start (.startAt start) := by
  constructor <;> simp [State.startAt]

/-- `Sound` is kept by a `turn`. -/
theorem Sound.turn (h : Sound next counts start s) (hturn : turn ⟨id, next, counts⟩ s = some t) :
    Sound next counts start t := by
  obtain ⟨i, queue, news, hqueue, hmet⟩ := exists_met_of_turn _ hturn
  have hseen : ∀ x, x ∈ t.seen ↔ x ∈ s.seen ∨ x ∈ next i := by
    intro x
    rw [hmet.seen x]
    simp
  have hfound : ∀ x, x ∈ t.found ↔ x ∈ s.found ∨ x ∈ news := by
    intro x
    rw [hmet.found, List.mem_append]
  have hnew : ∀ x ∈ news, Link next counts i x ∧ x ∉ s.seen := by
    intro x hx
    obtain ⟨hmem, hcounts, hunseen⟩ := hmet.new x hx
    exact ⟨⟨hmem, hcounts⟩, hunseen⟩
  have hi : i = start ∨ i ∈ s.found := h.waiting i (hqueue ▸ List.mem_cons_self)
  -- a link out of `i` leads to what was seen before, and then was found, or to what is new
  have hlinks : ∀ y, Link next counts i y → y = start ∨ y ∈ t.found := by
    intro y hy
    by_cases hunseen : y ∈ s.seen
    · exact (h.kept y hunseen hy.2).imp_right fun hmem => (hfound y).2 (.inl hmem)
    · obtain ⟨j, hj, rfl⟩ := hmet.all y hy.1 hy.2 hunseen
      exact .inr ((hfound _).2 (.inr hj))
  -- one goal for each field, in the order of the structure
  constructor
  · exact (hseen start).2 (.inl h.seen_start)
  · intro x hx
    rcases (hfound x).1 hx with hx | hx
    · exact (hseen x).2 (.inl (h.seen_found x hx))
    · exact (hseen x).2 (.inr (hnew x hx).1.1)
  · intro hmem
    rcases (hfound start).1 hmem with hmem | hmem
    · exact h.other hmem
    · exact (hnew start hmem).2 h.seen_start
  · -- `once`: what is new was not seen, and all that was found had been
    have hnews : news.Nodup := by simpa using hmet.once
    rw [hmet.found, List.nodup_append]
    refine ⟨h.once, hnews, fun x hx y hy hxy => ?_⟩
    exact (hnew y hy).2 (hxy ▸ h.seen_found x hx)
  · intro x hx
    rcases (hfound x).1 hx with hx | hx
    · exact h.reached x hx
    · rcases hi with rfl | hi
      · exact .single (hnew x hx).1
      · exact .tail (h.reached i hi) (hnew x hx).1
  · intro x hx
    rw [hmet.queue, List.mem_append] at hx
    rcases hx with hx | hx
    · exact (h.waiting x (hqueue ▸ List.mem_cons_of_mem i hx)).imp_right fun hmem => (hfound x).2 (.inl hmem)
    · exact .inr ((hfound x).2 (.inr hx))
  · intro x hx hcounts
    rcases (hseen x).1 hx with hx | hx
    · exact (h.kept x hx hcounts).imp_right fun hmem => (hfound x).2 (.inl hmem)
    · exact hlinks x ⟨hx, hcounts⟩
  · -- `closed`: the links of `i` are followed now, and no others change
    intro x hx hwait y hy
    rw [hmet.queue, List.mem_append, not_or] at hwait
    by_cases hxi : x = i
    · exact hlinks y (hxi ▸ hy)
    · have hold : x = start ∨ x ∈ s.found := by
        refine hx.imp_right fun hmem => ((hfound x).1 hmem).resolve_right hwait.2
      have hwaited : x ∉ s.queue := by
        rw [hqueue, List.mem_cons, not_or]
        exact ⟨hxi, hwait.1⟩
      exact (h.closed x hold hwaited y hy).imp_right fun hmem => (hfound y).2 (.inl hmem)

/-- `Sound` is kept by any number of turns. -/
theorem Sound.turns (h : Sound next counts start s)
    (hturns : Relation.ReflTransGen (fun s t => Worklist.turn ⟨id, next, counts⟩ s = some t) s t) :
    Sound next counts start t := by
  induction hturns with
  | refl => exact h
  | tail _ hturn ih => exact ih.turn hturn

/-- A search from one thing finds, once each, the other things that links lead to. -/
theorem Ends.nodup_and_mem_found_iff (h : Ends ⟨id, next, counts⟩ (.startAt start) t) :
    t.found.Nodup ∧ ∀ x, x ∈ t.found ↔ x ≠ start ∧ Relation.TransGen (Link next counts) start x := by
  have hsound := (sound_startAt next counts start).turns h.turns
  -- nothing waits any more, so that links lead from what was found to what was found
  have hall : ∀ x, Relation.TransGen (Link next counts) start x → x = start ∨ x ∈ t.found := by
    have hlinks : ∀ x, x = start ∨ x ∈ t.found → ∀ y, Link next counts x y → y = start ∨ y ∈ t.found := by
      intro x hx
      exact hsound.closed x hx (by rw [h.stops]; exact List.not_mem_nil)
    intro x hx
    induction hx with
    | single hlink => exact hlinks start (.inl rfl) _ hlink
    | tail _ hlink ih => exact hlinks _ ih _ hlink
  refine ⟨hsound.once, fun x => ⟨fun hx => ⟨?_, hsound.reached x hx⟩, ?_⟩⟩
  · rintro rfl
    exact hsound.other hx
  · rintro ⟨hne, hx⟩
    exact (hall x hx).resolve_left hne

end

/-! ### Searches for a closure -/

section
variable {α : Type} [BEq α] [Hashable α] [LawfulBEq α] [DecidableEq α] (next : α → List α) (counts : α → Bool)

/-- Of the items that a search meets, the `fresh` ones are found, if what counts is what is in the domain. -/
theorem foldl_meet_fresh (domain : Std.HashSet α) {seen : Std.HashSet α} {s : State α α}
    (hseen : ∀ x ∈ domain, x ∈ s.seen ↔ x ∈ seen) {xs : List α}
    (hcounts : ∀ x ∈ xs, counts x = domain.contains x) :
    (∀ x ∈ domain, x ∈ (xs.foldl (meet ⟨id, next, counts⟩) s).seen ↔ x ∈ withAll seen (fresh domain seen xs)) ∧
    (xs.foldl (meet ⟨id, next, counts⟩) s).found = s.found ++ fresh domain seen xs ∧
    (xs.foldl (meet ⟨id, next, counts⟩) s).queue = s.queue ++ fresh domain seen xs := by
  -- both searches mark as they go, so what is seen is general
  induction xs generalizing s seen with
  | nil => simpa [fresh, withAll] using hseen
  | cons x xs ih =>
    have hrest : ∀ y ∈ xs, counts y = domain.contains y := fun y hy => hcounts y (List.mem_cons_of_mem x hy)
    have hx := hcounts x List.mem_cons_self
    rw [List.foldl_cons, fresh]
    by_cases hdomain : x ∈ domain
    · rw [Std.HashSet.mem_iff_contains.1 hdomain] at hx
      -- in the domain: met before, or new on both sides
      by_cases hmem : x ∈ seen
      · have hmeet : meet ⟨id, next, counts⟩ s x = s := if_pos ((hseen x hdomain).2 hmem)
        rw [hmeet, Std.HashSet.mem_iff_contains.1 hmem, Bool.not_true, Bool.and_false,
          if_neg Bool.false_ne_true]
        exact ih hseen hrest
      · have hunseen : x ∉ s.seen := fun h => hmem ((hseen x hdomain).1 h)
        have hmeet : meet ⟨id, next, counts⟩ s x = ⟨x :: s.seen, s.found ++ [x], s.queue ++ [x]⟩ := by
          simp [meet, hunseen, hx]
        have hseen' : ∀ y ∈ domain, y ∈ x :: s.seen ↔ y ∈ seen.insert x := by
          intro y hy
          rw [List.mem_cons, Std.HashSet.mem_insert, hseen y hy, beq_iff_eq, eq_comm (a := y)]
        obtain ⟨hseen'', hfound, hqueue⟩ := ih (s := ⟨x :: s.seen, s.found ++ [x], s.queue ++ [x]⟩) hseen' hrest
        rw [hmeet, Std.HashSet.mem_iff_contains.1 hdomain, Std.HashSet.contains_eq_false_iff_not_mem.2 hmem]
        refine ⟨hseen'', ?_, ?_⟩
        · rw [hfound, List.append_assoc]
          rfl
        · rw [hqueue, List.append_assoc]
          rfl
    · -- what does not count may be marked, but is not found
      have hout := Std.HashSet.contains_eq_false_iff_not_mem.2 hdomain
      obtain ⟨marked, hmeet, hmarked⟩ : ∃ marked, meet ⟨id, next, counts⟩ s x = { s with seen := marked } ∧
          ∀ y ∈ domain, y ∈ marked ↔ y ∈ s.seen := by
        by_cases hmem : x ∈ s.seen
        · exact ⟨s.seen, if_pos hmem, fun _ _ => Iff.rfl⟩
        · refine ⟨x :: s.seen, by simp [meet, hmem, hx, hout], fun y hy => ?_⟩
          have hne : y ≠ x := fun heq => hdomain (heq ▸ hy)
          simp [hne]
      rw [hmeet, hout, Bool.false_and, if_neg Bool.false_ne_true]
      exact ih (s := { s with seen := marked }) (fun y hy => (hmarked y hy).trans (hseen y hy)) hrest

/-- The search ends with what `explore` finds. -/
theorem exists_ends_explore (domain : Std.HashSet α) (hnext : ∀ x, ∀ y ∈ next x, counts y = domain.contains y)
    (seen : Std.HashSet α) (found queue : List α) (s : State α α) (hseen : ∀ x ∈ domain, x ∈ s.seen ↔ x ∈ seen)
    (hfound : s.found.reverse = found) (hqueue : s.queue = queue) :
    ∃ t, Ends ⟨id, next, counts⟩ s t ∧ t.found = explore domain next seen found queue := by
  revert s
  -- along the recursion of `explore`, one turn for each of its steps
  induction seen, found, queue using explore.induct domain next with
  | case1 seen found =>
    intro s _ hfound hqueue
    refine ⟨s, ⟨.refl, hqueue⟩, ?_⟩
    rw [explore, ← hfound, List.reverse_reverse]
  | case2 seen found x queue more ih =>
    intro s hseen hfound hqueue
    have hturn : turn ⟨id, next, counts⟩ s =
        some ((next x).foldl (meet ⟨id, next, counts⟩) { s with queue }) := by
      rw [turn, hqueue]
    obtain ⟨hseen', hfound', hqueue'⟩ := foldl_meet_fresh next counts domain (s := { s with queue }) hseen
      (hnext x)
    obtain ⟨t, ht, hresult⟩ := ih _ hseen' (by rw [hfound', List.reverse_append, hfound]) hqueue'
    exact ⟨t, ⟨.head hturn ht.turns, ht.stops⟩, by rw [explore]; exact hresult⟩

/-- A search to which things of the domain count, as far as links lead to them, ends with the `closure` of its
    roots, found in this order. -/
theorem exists_ends_closure {domain roots : List α} (hroots : ∀ x ∈ roots, counts x = domain.contains x)
    (hnext : ∀ x, ∀ y ∈ next x, counts y = domain.contains y) :
    ∃ t, Ends ⟨id, next, counts⟩ (roots.foldl (meet ⟨id, next, counts⟩) ⟨[], [], []⟩) t ∧
      t.found = closure domain next roots := by
  have hdomain : ∀ x, (withAll ∅ domain).contains x = domain.contains x := by simp [contains_withAll]
  have hnone : ∀ x ∈ withAll ∅ domain, x ∈ (⟨[], [], []⟩ : State α α).seen ↔ x ∈ (∅ : Std.HashSet α) := by simp
  obtain ⟨hseen, hfound, hqueue⟩ := foldl_meet_fresh next counts (withAll ∅ domain) hnone
    fun x hx => (hroots x hx).trans (hdomain x).symm
  exact exists_ends_explore next counts (withAll ∅ domain) (fun x y hy => (hnext x y hy).trans (hdomain y).symm)
    _ _ _ _ hseen (congrArg List.reverse hfound) hqueue

end

end Worklist
end CallAtlas
