import Mathlib.Algebra.BigOperators.Fin
import Haiku.Lib.Run
import Haiku.Slab.ObjectDepot

/-!
# Depots lose no object

The objects that were stored are counted in the places where they can be: in the calls that store
them, in magazines, among those that were obtained and those that were returned. Every step moves
objects between these places. What a depot says about the length of its lists is right until
`object_depot_make_empty()` finds something in them, because it leaves the counts as they are.
-/

namespace Haiku.Slab.Depot

open Function Lib

variable {T α : Type} {cpuCount : ℕ}

/-! ## Counting objects -/

section

variable [DecidableEq α]

def DepotMagazine.countOf (o : α) (m : DepotMagazine α) : ℕ := m.rounds.count o

/-- How often an object is in the magazines of a list -/
def countIn (o : α) (l : List (DepotMagazine α)) : ℕ := (l.map (·.countOf o)).sum

def DepotCpuStore.countOf (o : α) (store : DepotCpuStore α) : ℕ := countIn o store.magazines

def ObjectDepot.countOf (o : α) (depot : ObjectDepot α cpuCount) : ℕ :=
  tally (DepotCpuStore.countOf o) depot.stores + countIn o depot.full + countIn o depot.empty

def Phase.countOf (o : α) : Phase α cpuCount → ℕ
  | .freeing objects _ => objects.count o
  | .pushing magazine _ => magazine.countOf o
  | .emptying objects => objects.count o
  | _ => 0

def Phase.carries (o : α) : Phase α cpuCount → ℕ
  | .storing _ object => if object = o then 1 else 0
  | .freeing _ object => if object = o then 1 else 0
  | .allocating object => if object = o then 1 else 0
  | .pushing _ object => if object = o then 1 else 0
  | _ => 0

variable [Fintype T]

def State.held (s : State T α cpuCount) (o : α) : ℕ :=
  s.depot.countOf o + tally (Phase.countOf o) s.threads

def State.carried (s : State T α cpuCount) (o : α) : ℕ := tally (Phase.carries o) s.threads

/-! ## What is claimed -/

structure ObjectDepot.Sorted (depot : ObjectDepot α cpuCount) : Prop where
  full : ∀ m ∈ depot.full, m.IsFull
  empty : ∀ m ∈ depot.empty, m.IsEmpty
  previous : ∀ cpu, ∀ m ∈ (depot.stores cpu).previous, m.IsFull ∨ m.IsEmpty

/-- The objects are where they should be, and so are the magazines. -/
structure State.Conserves (s : State T α cpuCount) : Prop where
  objects : ∀ o, s.stored.count o =
    s.carried o + s.held o + s.obtained.count o + s.returned.count o
  sorted : s.depot.Sorted
  asserted : s.asserted = true

end

def State.Counted (s : State T α cpuCount) : Prop :=
  s.depot.fullCount = s.depot.full.length ∧ s.depot.emptyCount = s.depot.empty.length

/-- `object_depot_make_empty()` finds the lists empty. -/
def State.Detaches (s : State T α cpuCount) : Action T α cpuCount → Prop
  | .makeEmpty _ => s.depot.full = [] ∧ s.depot.empty = []
  | _ => True

/-! ## Magazines and lists -/

variable {previous freeMagazine : Option (DepotMagazine α)}

section

variable [DecidableEq α] {o object : α} {m m' : DepotMagazine α} {l l' : List (DepotMagazine α)}


@[simp] lemma countIn_cons (o : α) (m : DepotMagazine α) (l : List (DepotMagazine α)) :
    countIn o (m :: l) = m.countOf o + countIn o l := by
  rw [countIn, List.map_cons, List.sum_cons]
  rfl

@[simp] lemma countIn_append (o : α) (l l' : List (DepotMagazine α)) :
    countIn o (l ++ l') = countIn o l + countIn o l' := by
  rw [countIn, List.map_append, List.sum_append]
  rfl

@[simp] lemma countIn_reverse (o : α) (l : List (DepotMagazine α)) :
    countIn o l.reverse = countIn o l := by
  rw [countIn, List.map_reverse, List.sum_reverse]
  rfl

lemma countIn_of_empty (h : ∀ m ∈ l, m.IsEmpty) (o : α) : countIn o l = 0 := by
  induction l with
  | nil => rfl
  | cons m l ih =>
    have hempty : m.rounds = [] := List.length_eq_zero_iff.1 (h m List.mem_cons_self)
    have hrest := ih fun m' hm' => h m' (List.mem_cons_of_mem _ hm')
    rw [countIn_cons, DepotMagazine.countOf, hempty, hrest]
    rfl

lemma countIn_toList (o : α) (m : Option (DepotMagazine α)) :
    countIn o m.toList = m.elim 0 (·.countOf o) := by
  cases m with
  | none => rfl
  | some m => exact Nat.add_zero _

lemma countOf_store (o : α) (loaded previous : Option (DepotMagazine α)) :
    DepotCpuStore.countOf o ⟨loaded, previous⟩ =
      loaded.elim 0 (·.countOf o) + previous.elim 0 (·.countOf o) := by
  show countIn o (loaded.toList ++ previous.toList) = _
  rw [countIn_append, countIn_toList, countIn_toList]

lemma count_objects (o : α) (l : List (DepotMagazine α)) :
    (l.flatMap DepotMagazine.objects).count o = countIn o l := by
  induction l with
  | nil => rfl
  | cons m l ih =>
    rw [List.flatMap_cons, List.count_append, ih, countIn_cons, DepotMagazine.objects,
      List.count_reverse]
    rfl

lemma count_cons_eq (o object : α) (l : List α) :
    (object :: l).count o = l.count o + if object = o then 1 else 0 := by
  rw [List.count_cons]
  by_cases h : object = o
  · rw [if_pos h, if_pos (beq_iff_eq.2 h)]
  · rw [if_neg h, if_neg (fun he => h (beq_iff_eq.1 he))]

lemma DepotMagazine.countOf_pop (h : m.pop = some (object, m')) (o : α) :
    m.countOf o = m'.countOf o + if object = o then 1 else 0 := by
  unfold DepotMagazine.pop at h
  split at h
  · cases h
  next first rounds hrounds =>
    cases h
    have hcount : m.rounds.count o = (object :: rounds).count o := by rw [hrounds]
    exact hcount.trans (count_cons_eq o object rounds)

omit [DecidableEq α] in
lemma DepotMagazine.isEmpty_of_pop (h : m.pop = none) : m.IsEmpty := by
  unfold DepotMagazine.pop at h
  split at h
  next hrounds =>
    unfold DepotMagazine.IsEmpty
    rw [hrounds]
    rfl
  · cases h

lemma DepotMagazine.countOf_push (h : m.push object = some m') (o : α) :
    m'.countOf o = m.countOf o + if object = o then 1 else 0 := by
  unfold DepotMagazine.push at h
  split at h
  · cases h
  · cases h
    exact count_cons_eq o object m.rounds

omit [DecidableEq α] in
lemma DepotMagazine.isFull_of_push (h : m.push object = none) : m.IsFull := by
  unfold DepotMagazine.push at h
  split at h
  next hfull => exact hfull
  · cases h

/-! ## Depots -/

variable {depot depot' : ObjectDepot α cpuCount} {cpu : Fin cpuCount} {store : DepotCpuStore α}

lemma ObjectDepot.countOf_setStore (depot : ObjectDepot α cpuCount) (cpu : Fin cpuCount)
    (store : DepotCpuStore α) (o : α) :
    (depot.setStore cpu store).countOf o + (depot.stores cpu).countOf o =
      depot.countOf o + store.countOf o := by
  have htally := tally_update (DepotCpuStore.countOf o) depot.stores cpu store
  show tally (DepotCpuStore.countOf o) (update depot.stores cpu store) +
    countIn o depot.full + countIn o depot.empty + _ = _
  unfold ObjectDepot.countOf
  omega

lemma ObjectDepot.countIn_storeMagazines (depot : ObjectDepot α cpuCount) (o : α) :
    countIn o depot.storeMagazines = tally (DepotCpuStore.countOf o) depot.stores := by
  unfold storeMagazines tally
  rw [countIn_reverse, Fin.sum_univ_def]
  induction List.finRange cpuCount with
  | nil => rfl
  | cons cpu l ih =>
    rw [List.flatMap_cons, countIn_append, ih, List.map_cons, List.sum_cons]
    rfl

lemma ObjectDepot.countOf_detach (depot : ObjectDepot α cpuCount) (o : α) :
    depot.detach.countOf o = 0 := by
  have hstores : tally (DepotCpuStore.countOf o)
      (fun _ : Fin cpuCount => (⟨none, none⟩ : DepotCpuStore α)) = 0 :=
    tally_eq_zero.2 fun _ => rfl
  unfold ObjectDepot.countOf
  exact hstores

lemma ObjectDepot.count_detached (h : depot.Sorted) (o : α) :
    ((depot.storeMagazines ++ depot.full).flatMap DepotMagazine.objects).count o =
      depot.countOf o := by
  have hempty := countIn_of_empty h.empty o
  rw [count_objects, countIn_append, depot.countIn_storeMagazines]
  unfold ObjectDepot.countOf
  omega

lemma ObjectDepot.countOf_exchangeWithFull (h : depot.exchangeWithFull m = some (m', depot'))
    (o : α) : depot'.countOf o + m'.countOf o = depot.countOf o + m.countOf o := by
  unfold exchangeWithFull at h
  split at h
  · cases h
  next first full hfull =>
    cases h
    have hold : countIn o depot.full = m'.countOf o + countIn o full := by
      rw [hfull, countIn_cons]
    have hnew : countIn o (m :: depot.empty) = m.countOf o + countIn o depot.empty :=
      countIn_cons o m depot.empty
    unfold countOf
    dsimp only
    omega

lemma ObjectDepot.countOf_exchangeWithEmpty
    (h : depot.exchangeWithEmpty previous = some (m', freeMagazine, depot')) (o : α) :
    depot'.countOf o + m'.countOf o + freeMagazine.elim 0 (·.countOf o) =
      depot.countOf o + previous.elim 0 (·.countOf o) := by
  unfold exchangeWithEmpty at h
  split at h
  · cases h
  next first empty hempty =>
    have hold : countIn o depot.empty = first.countOf o + countIn o empty := by
      rw [hempty, countIn_cons]
    dsimp only at h
    split at h
    · cases h
      unfold countOf
      dsimp only [Option.elim]
      omega
    next magazine =>
      split_ifs at h
      · cases h
        have hnew : countIn o (magazine :: depot.full) =
            magazine.countOf o + countIn o depot.full := countIn_cons o magazine depot.full
        unfold countOf
        dsimp only [Option.elim]
        omega
      · cases h
        unfold countOf
        dsimp only [Option.elim]
        omega

lemma ObjectDepot.countOf_pushEmptyMagazine (depot : ObjectDepot α cpuCount)
    (m : DepotMagazine α) (o : α) :
    (depot.pushEmptyMagazine m).countOf o = depot.countOf o + m.countOf o := by
  have hnew : countIn o (m :: depot.empty) = m.countOf o + countIn o depot.empty :=
    countIn_cons o m depot.empty
  unfold countOf pushEmptyMagazine
  dsimp only
  omega

end

/-! ## Magazines stay where they belong -/

namespace ObjectDepot

variable {depot depot' : ObjectDepot α cpuCount} {cpu : Fin cpuCount} {m m' : DepotMagazine α}

lemma sorted_init (capacity maxCount : ℕ) :
    (init capacity maxCount : ObjectDepot α cpuCount).Sorted where
  full m hm := by cases hm
  empty m hm := by cases hm
  previous cpu m hm := by cases hm

lemma Sorted.setStore (h : depot.Sorted) (cpu : Fin cpuCount) {store : DepotCpuStore α}
    (hprevious : ∀ m ∈ store.previous, m.IsFull ∨ m.IsEmpty) :
    (depot.setStore cpu store).Sorted where
  full := h.full
  empty := h.empty
  previous cpu' m hm := by
    by_cases he : cpu' = cpu
    · rw [he] at hm
      unfold ObjectDepot.setStore at hm
      dsimp only at hm
      rw [update_self] at hm
      exact hprevious m hm
    · unfold ObjectDepot.setStore at hm
      dsimp only at hm
      rw [update_of_ne he] at hm
      exact h.previous cpu' m hm

lemma Sorted.exchangeWithFull (h : depot.Sorted) (hm : m.IsEmpty)
    (he : depot.exchangeWithFull m = some (m', depot')) : depot'.Sorted ∧ m'.IsFull := by
  unfold ObjectDepot.exchangeWithFull at he
  split at he
  · cases he
  next first full hfull =>
    cases he
    have hall := h.full
    rw [hfull] at hall
    constructor
    · constructor
      · exact fun m'' hm'' => hall m'' (List.mem_cons_of_mem _ hm'')
      · intro m'' hm''
        rcases List.mem_cons.1 hm'' with rfl | hm''
        · exact hm
        · exact h.empty m'' hm''
      · exact h.previous
    · exact hall m' List.mem_cons_self

lemma Sorted.exchangeWithEmpty (h : depot.Sorted) (hprevious : ∀ m ∈ previous, m.IsFull)
    (he : depot.exchangeWithEmpty previous = some (m', freeMagazine, depot')) : depot'.Sorted := by
  unfold ObjectDepot.exchangeWithEmpty at he
  split at he
  · cases he
  next first empty hempty =>
    have hall := h.empty
    rw [hempty] at hall
    have hrest : ∀ m'' ∈ empty, m''.IsEmpty :=
      fun m'' hm'' => hall m'' (List.mem_cons_of_mem _ hm'')
    dsimp only at he
    split at he
    · cases he
      exact ⟨h.full, hrest, h.previous⟩
    next magazine =>
      split_ifs at he
      · cases he
        refine ⟨?_, hrest, h.previous⟩
        intro m'' hm''
        rcases List.mem_cons.1 hm'' with rfl | hm''
        · exact hprevious m'' rfl
        · exact h.full m'' hm''
      · cases he
        exact ⟨h.full, hrest, h.previous⟩

lemma Sorted.pushEmptyMagazine (h : depot.Sorted) (hm : m.IsEmpty) :
    (depot.pushEmptyMagazine m).Sorted where
  full := h.full
  empty m' hm' := by
    rcases List.mem_cons.1 hm' with rfl | hm'
    · exact hm
    · exact h.empty m' hm'
  previous := h.previous

lemma sorted_detach (depot : ObjectDepot α cpuCount) : depot.detach.Sorted where
  full m hm := by cases hm
  empty m hm := by cases hm
  previous cpu m hm := by cases hm

lemma stores_exchangeWithFull (he : depot.exchangeWithFull m = some (m', depot')) :
    depot'.stores = depot.stores := by
  unfold ObjectDepot.exchangeWithFull at he
  split at he
  · cases he
  · cases he
    rfl

lemma stores_exchangeWithEmpty
    (he : depot.exchangeWithEmpty previous = some (m', freeMagazine, depot')) :
    depot'.stores = depot.stores := by
  unfold ObjectDepot.exchangeWithEmpty at he
  split at he
  · cases he
  · dsimp only at he
    split at he
    · cases he
      rfl
    · split_ifs at he
      · cases he
        rfl
      · cases he
        rfl

end ObjectDepot

/-! ## Steps -/

variable {a : Action T α cpuCount}

section

variable [DecidableEq α] [DecidableEq T] [Fintype T] {s s' : State T α cpuCount} {t : T}
  {old phase : Phase α cpuCount} {cpu : Fin cpuCount} {object : α}

/-- The invariant: the property, and that new magazines are empty -/
structure State.Inv (s : State T α cpuCount) : Prop extends s.Conserves where
  pushing : ∀ t m object, s.threads t = .pushing m object → m.IsEmpty

omit [DecidableEq T] in
lemma State.inv_init (capacity maxCount : ℕ) :
    (State.init capacity maxCount : State T α cpuCount).Inv where
  objects o := by
    have hstores : tally (DepotCpuStore.countOf o)
        (fun _ : Fin cpuCount => (⟨none, none⟩ : DepotCpuStore α)) = 0 :=
      tally_eq_zero.2 fun _ => rfl
    have hcarried : tally (Phase.carries o)
        (fun _ : T => (.outside : Phase α cpuCount)) = 0 := tally_eq_zero.2 fun _ => rfl
    have hheld : tally (Phase.countOf o)
        (fun _ : T => (.outside : Phase α cpuCount)) = 0 := tally_eq_zero.2 fun _ => rfl
    unfold State.carried State.held ObjectDepot.countOf State.init ObjectDepot.init
    dsimp only
    rw [hstores, hcarried, hheld]
    rfl
  sorted := ObjectDepot.sorted_init capacity maxCount
  asserted := rfl
  pushing t m object h := by cases h

lemma State.Inv.change (h : s.Inv) (ht : s.threads t = old)
    (hthreads : s'.threads = update s.threads t phase)
    (hmoves : ∀ o, s.depot.countOf o + old.countOf o + old.carries o + s.obtained.count o +
      s.returned.count o + s'.stored.count o =
        s'.depot.countOf o + phase.countOf o + phase.carries o + s'.obtained.count o +
          s'.returned.count o + s.stored.count o)
    (hsorted : s'.depot.Sorted) (hpushing : ∀ m object, phase = .pushing m object → m.IsEmpty)
    (hasserted : s'.asserted = true) : s'.Inv where
  objects o := by
    have hold := h.objects o
    have hmove := hmoves o
    have hcarried := tally_update (Phase.carries o) s.threads t phase
    have hheld := tally_update (Phase.countOf o) s.threads t phase
    unfold State.carried State.held at hold ⊢
    rw [hthreads]
    rw [ht] at hcarried hheld
    omega
  sorted := hsorted
  asserted := hasserted
  pushing t' m object ht' := by
    rw [hthreads] at ht'
    by_cases he : t' = t
    · rw [he, update_self] at ht'
      exact hpushing m object ht'
    · rw [update_of_ne he] at ht'
      exact h.pushing t' m object ht'

omit [DecidableEq T] in
lemma State.Inv.changeDepot (h : s.Inv) (hthreads : s'.threads = s.threads)
    (hmoves : ∀ o, s'.depot.countOf o = s.depot.countOf o) (hstored : s'.stored = s.stored)
    (hobtained : s'.obtained = s.obtained) (hreturned : s'.returned = s.returned)
    (hsorted : s'.depot.Sorted) (hasserted : s'.asserted = true) : s'.Inv where
  objects o := by
    have hold := h.objects o
    unfold State.carried State.held at hold ⊢
    rw [hthreads, hmoves, hstored, hobtained, hreturned]
    exact hold
  sorted := hsorted
  asserted := hasserted
  pushing := by
    rw [hthreads]
    exact h.pushing

lemma State.Inv.obtainNext (h : s.Inv) (ht : s.threads t = .obtaining cpu)
    (hs : s.obtainNext t cpu = some s') : s'.Inv := by
  unfold State.obtainNext at hs
  generalize hstore : s.depot.stores cpu = store at hs
  obtain ⟨loaded, previous⟩ := store
  dsimp only at hs
  split at hs
  · cases hs
  next loaded =>
    have hset := fun store o => s.depot.countOf_setStore cpu store o
    rw [hstore] at hset
    split at hs
    next first rest hpop =>
      -- an object is taken out of the loaded magazine
      cases hs
      apply h.change ht rfl
      · intro o
        have hcount := DepotMagazine.countOf_pop hpop o
        have hdepot := hset ⟨some rest, previous⟩ o
        rw [countOf_store, countOf_store] at hdepot
        have hobtained := count_cons_eq o first s.obtained
        dsimp only [Option.elim, Phase.countOf, Phase.carries, State.setThread] at hdepot ⊢
        omega
      · apply h.sorted.setStore
        intro m hm
        exact h.sorted.previous cpu m (by rw [hstore]; exact hm)
      · intro m object he
        cases he
      · exact h.asserted
    next hpop =>
      have hloaded := DepotMagazine.isEmpty_of_pop hpop
      split at hs
      · cases hs
        exact h.change ht rfl (fun o => rfl) h.sorted (fun m object he => by cases he) h.asserted
      next previous =>
        have hprevious := h.sorted.previous cpu previous (by rw [hstore]; rfl)
        split_ifs at hs with hfull
        · -- the magazines are swapped
          cases hs
          refine h.changeDepot (by rfl) ?_ (by rfl) (by rfl) (by rfl) ?_ (by exact h.asserted)
          · intro o
            have hdepot := hset ⟨some previous, some loaded⟩ o
            rw [countOf_store, countOf_store] at hdepot
            dsimp only [Option.elim] at hdepot ⊢
            omega
          · apply h.sorted.setStore
            intro m hm
            cases hm
            exact Or.inr hloaded
        · have hempty : previous.IsEmpty := hprevious.resolve_left hfull
          have hassert : (s.asserted && decide previous.IsEmpty) = true := by
            rw [h.asserted, decide_eq_true hempty]
            rfl
          split at hs
          · cases hs
            exact h.change ht rfl (fun o => rfl) h.sorted (fun m object he => by cases he) hassert
          next magazine depot hexchange =>
            cases hs
            obtain ⟨hsorted, hmagazine⟩ := h.sorted.exchangeWithFull hempty hexchange
            refine h.changeDepot (by rfl) ?_ (by rfl) (by rfl) (by rfl) ?_ (by exact hassert)
            · intro o
              have hcount := ObjectDepot.countOf_exchangeWithFull hexchange o
              have hdepot := depot.countOf_setStore cpu ⟨some magazine, some loaded⟩ o
              rw [ObjectDepot.stores_exchangeWithFull hexchange, hstore, countOf_store,
                countOf_store] at hdepot
              dsimp only [Option.elim] at hdepot ⊢
              omega
            · apply hsorted.setStore
              intro m hm
              cases hm
              exact Or.inr hloaded

lemma State.Inv.storeNext (h : s.Inv) (ht : s.threads t = .storing cpu object) :
    (s.storeNext t cpu object).Inv := by
  unfold State.storeNext
  generalize hstore : s.depot.stores cpu = store
  obtain ⟨loaded, previous⟩ := store
  dsimp only
  have hset := fun store o => s.depot.countOf_setStore cpu store o
  rw [hstore] at hset
  have hprevious : ∀ m ∈ previous, m.IsFull ∨ m.IsEmpty := by
    intro m hm
    exact h.sorted.previous cpu m (by rw [hstore]; exact hm)
  split
  next rest hpush =>
    -- the object is put into the loaded magazine
    obtain ⟨magazine, hloaded, hpush⟩ := Option.bind_eq_some_iff.1 hpush
    refine h.change ht (by rfl) ?_ ?_ ?_ (by exact h.asserted)
    · intro o
      have hcount := DepotMagazine.countOf_push hpush o
      have hdepot := hset ⟨some rest, previous⟩ o
      rw [countOf_store, countOf_store, hloaded] at hdepot
      dsimp only [Option.elim, Phase.countOf, Phase.carries, State.setThread] at hdepot ⊢
      omega
    · exact h.sorted.setStore cpu hprevious
    · intro m object he
      cases he
  next hpush =>
    have hloaded : ∀ m ∈ loaded, m.IsFull := by
      intro m hm
      cases hm
      exact DepotMagazine.isFull_of_push hpush
    split_ifs with hempty
    · -- the magazines are swapped
      refine h.changeDepot (by rfl) ?_ (by rfl) (by rfl) (by rfl) ?_ (by exact h.asserted)
      · intro o
        have hdepot := hset ⟨previous, loaded⟩ o
        rw [countOf_store, countOf_store] at hdepot
        dsimp only at hdepot ⊢
        omega
      · exact h.sorted.setStore cpu fun m hm => Or.inl (hloaded m hm)
    · have hfull : ∀ m ∈ previous, m.IsFull := by
        intro m hm
        rcases hprevious m hm with hfull | hnot
        · exact hfull
        · exact absurd ⟨m, hm, hnot⟩ hempty
      have hassert : (s.asserted && decide (∀ m ∈ previous, m.IsFull)) = true := by
        rw [h.asserted, decide_eq_true hfull]
        rfl
      split
      next magazine freeMagazine depot hexchange =>
        have hsorted := h.sorted.exchangeWithEmpty hfull hexchange
        have hnew : (depot.setStore cpu ⟨some magazine, loaded⟩).Sorted :=
          hsorted.setStore cpu fun m hm => Or.inl (hloaded m hm)
        have hmoves : ∀ o, (depot.setStore cpu ⟨some magazine, loaded⟩).countOf o +
            freeMagazine.elim 0 (·.countOf o) = s.depot.countOf o := by
          intro o
          have hcount := ObjectDepot.countOf_exchangeWithEmpty hexchange o
          have hdepot := depot.countOf_setStore cpu ⟨some magazine, loaded⟩ o
          rw [ObjectDepot.stores_exchangeWithEmpty hexchange, hstore, countOf_store,
            countOf_store] at hdepot
          dsimp only [Option.elim] at hdepot hcount ⊢
          omega
        split
        · refine h.changeDepot (by rfl) ?_ (by rfl) (by rfl) (by rfl) hnew (by exact hassert)
          intro o
          exact hmoves o
        next free =>
          -- there are enough full magazines: this one is to be freed
          refine h.change ht (by rfl) ?_ hnew ?_ (by exact hassert)
          · intro o
            have hmove := hmoves o
            have hobjects : free.objects.count o = free.countOf o := List.count_reverse
            dsimp only [Option.elim, Phase.countOf, Phase.carries, State.setThread] at hmove ⊢
            omega
          · intro m object he
            cases he
      · exact h.change ht rfl (fun o => rfl) h.sorted (fun m object he => by cases he) hassert

lemma State.Inv.makeEmpty (h : s.Inv) (ht : s.threads t = .outside) : (s.makeEmpty t).Inv := by
  unfold State.makeEmpty
  refine h.change ht (by rfl) ?_ (by exact ObjectDepot.sorted_detach _) ?_ (by exact h.asserted)
  · intro o
    have hdetached := ObjectDepot.count_detached h.sorted o
    have hnothing := ObjectDepot.countOf_detach s.depot o
    dsimp only [Phase.countOf, Phase.carries, State.setThread]
    omega
  · intro m object he
    cases he

lemma State.Inv.step (h : s.Inv) (hs : Depot.step s a = some s') : s'.Inv := by
  have hnot : ∀ {phase : Phase α cpuCount}, (∀ m object, phase ≠ .pushing m object) →
      ∀ m object, phase = .pushing m object → m.IsEmpty :=
    fun hne m object he => absurd he (hne m object)
  unfold Depot.step at hs
  cases a with
  | obtain t cpu =>
    dsimp only at hs
    split at hs
    next ht =>
      split_ifs at hs
      cases hs
      unfold State.obtain
      split
      · exact h
      · exact h.change ht rfl (fun o => rfl) h.sorted (hnot (by simp)) h.asserted
    · cases hs
  | store t cpu object =>
    dsimp only at hs
    split at hs
    next ht =>
      split_ifs at hs
      cases hs
      refine h.change ht (by rfl) ?_ (by exact h.sorted) (hnot (by simp)) (by exact h.asserted)
      intro o
      have hstored := count_cons_eq o object s.stored
      dsimp only [Phase.countOf, Phase.carries, State.setThread]
      omega
    · cases hs
  | makeEmpty t =>
    dsimp only at hs
    split at hs
    next ht =>
      split_ifs at hs
      cases hs
      exact h.makeEmpty ht
    · cases hs
  | next t =>
    dsimp only at hs
    split at hs
    next cpu ht => exact h.obtainNext ht hs
    next cpu object ht =>
      cases hs
      exact h.storeNext ht
    · cases hs
  | returnObject t =>
    dsimp only at hs
    split at hs
    next first objects object ht =>
      cases hs
      refine h.change ht (by rfl) ?_ (by exact h.sorted) (hnot (by simp)) (by exact h.asserted)
      intro o
      have hfirst := count_cons_eq o first objects
      have hreturned := count_cons_eq o first s.returned
      dsimp only [Phase.countOf, Phase.carries, State.setThread]
      omega
    next first objects ht =>
      cases hs
      refine h.change ht (by rfl) ?_ (by exact h.sorted) (hnot (by simp)) (by exact h.asserted)
      intro o
      have hfirst := count_cons_eq o first objects
      have hreturned := count_cons_eq o first s.returned
      dsimp only [Phase.countOf, Phase.carries, State.setThread]
      omega
    next ht =>
      cases hs
      exact h.change ht rfl (fun o => rfl) h.sorted (hnot (by simp)) h.asserted
    · cases hs
  | resume t cpu =>
    dsimp only at hs
    split at hs
    next object ht =>
      split_ifs at hs
      cases hs
      exact h.change ht rfl (fun o => rfl) h.sorted (hnot (by simp)) h.asserted
    · cases hs
  | allocate t memory =>
    dsimp only at hs
    split at hs
    next object ht =>
      split_ifs at hs
      · cases hs
        refine h.change ht (by rfl) ?_ (by exact h.sorted) ?_ (by exact h.asserted)
        · intro o
          rfl
        · intro m object he
          cases he
          rfl
      · cases hs
        refine h.change ht (by rfl) ?_ (by exact h.sorted) (hnot (by simp)) (by exact h.asserted)
        intro o
        have hreturned := count_cons_eq o object s.returned
        dsimp only [Phase.countOf, Phase.carries, State.setThread]
        omega
    · cases hs
  | pushEmptyMagazine t cpu =>
    dsimp only at hs
    split at hs
    next magazine object ht =>
      split_ifs at hs
      cases hs
      have hempty := h.pushing t magazine object ht
      refine h.change ht (by rfl) ?_ (by exact h.sorted.pushEmptyMagazine hempty)
        (hnot (by simp)) (by exact h.asserted)
      intro o
      have hcount := ObjectDepot.countOf_pushEmptyMagazine s.depot magazine o
      dsimp only [Phase.countOf, Phase.carries, State.setThread]
      omega
    · cases hs

end

/-! ## The counts -/

/-- The counts are the lengths of the lists, or too large. -/
structure ObjectDepot.Bounded (depot : ObjectDepot α cpuCount) : Prop where
  full : depot.full.length ≤ depot.fullCount
  empty : depot.empty.length ≤ depot.emptyCount

/-- By how much the counts are too large stays the same. -/
structure ObjectDepot.SameExcess (depot depot' : ObjectDepot α cpuCount) : Prop where
  full : depot'.fullCount + depot.full.length = depot.fullCount + depot'.full.length
  empty : depot'.emptyCount + depot.empty.length = depot.emptyCount + depot'.empty.length

namespace ObjectDepot

variable {depot depot' : ObjectDepot α cpuCount} {m m' : DepotMagazine α}

lemma Bounded.keep (h : depot.Bounded) (hsame : depot.SameExcess depot') : depot'.Bounded := by
  have hfull := hsame.full
  have hempty := hsame.empty
  have hle := h.full
  have hle' := h.empty
  constructor
  · omega
  · omega

lemma Bounded.exchangeWithFull (h : depot.Bounded)
    (he : depot.exchangeWithFull m = some (m', depot')) : depot.SameExcess depot' := by
  unfold ObjectDepot.exchangeWithFull at he
  split at he
  · cases he
  next first full hfull =>
    cases he
    have hle := h.full
    rw [hfull, List.length_cons] at hle
    constructor
    · rw [hfull, List.length_cons]
      dsimp only
      omega
    · rw [List.length_cons]
      dsimp only
      omega

lemma Bounded.exchangeWithEmpty (h : depot.Bounded)
    (he : depot.exchangeWithEmpty previous = some (m', freeMagazine, depot')) :
    depot.SameExcess depot' := by
  unfold ObjectDepot.exchangeWithEmpty at he
  split at he
  · cases he
  next first empty hempty =>
    have hle := h.empty
    rw [hempty, List.length_cons] at hle
    have htaken : depot.emptyCount - 1 + depot.empty.length =
        depot.emptyCount + empty.length := by
      rw [hempty, List.length_cons]
      omega
    dsimp only at he
    split at he
    · cases he
      exact ⟨rfl, htaken⟩
    · split_ifs at he
      · cases he
        refine ⟨?_, htaken⟩
        rw [List.length_cons]
        dsimp only
        omega
      · cases he
        exact ⟨rfl, htaken⟩

lemma sameExcess_pushEmptyMagazine (depot : ObjectDepot α cpuCount) (m : DepotMagazine α) :
    depot.SameExcess (depot.pushEmptyMagazine m) where
  full := rfl
  empty := by
    show depot.emptyCount + 1 + depot.empty.length = depot.emptyCount + (m :: depot.empty).length
    rw [List.length_cons]
    omega

end ObjectDepot

section

variable [DecidableEq T] {s s' : State T α cpuCount} {t : T} {cpu : Fin cpuCount} {object : α}

lemma State.sameExcess_obtainNext (h : s.depot.Bounded)
    (hs : s.obtainNext t cpu = some s') : s.depot.SameExcess s'.depot := by
  unfold State.obtainNext at hs
  dsimp only at hs
  split at hs
  · cases hs
  · split at hs
    · cases hs
      exact ⟨rfl, rfl⟩
    · split at hs
      · cases hs
        exact ⟨rfl, rfl⟩
      · split_ifs at hs
        · cases hs
          exact ⟨rfl, rfl⟩
        · split at hs
          · cases hs
            exact ⟨rfl, rfl⟩
          next magazine depot hexchange =>
            cases hs
            have hsame := h.exchangeWithFull hexchange
            exact ⟨hsame.full, hsame.empty⟩

lemma State.sameExcess_storeNext (h : s.depot.Bounded) (t : T) (cpu : Fin cpuCount)
    (object : α) : s.depot.SameExcess (s.storeNext t cpu object).depot := by
  unfold State.storeNext
  dsimp only
  split
  · exact ⟨rfl, rfl⟩
  · split_ifs
    · exact ⟨rfl, rfl⟩
    · split
      next magazine freeMagazine depot hexchange =>
        have hsame := h.exchangeWithEmpty hexchange
        split
        · exact ⟨hsame.full, hsame.empty⟩
        · exact ⟨hsame.full, hsame.empty⟩
      · exact ⟨rfl, rfl⟩

lemma sameExcess_step [Fintype T] (h : s.depot.Bounded) (hs : step s a = some s')
    (ha : ∀ t, a ≠ .makeEmpty t) : s.depot.SameExcess s'.depot := by
  unfold step at hs
  cases a with
  | obtain t cpu =>
    dsimp only at hs
    split at hs
    · split_ifs at hs
      cases hs
      unfold State.obtain
      split
      · exact ⟨rfl, rfl⟩
      · exact ⟨rfl, rfl⟩
    · cases hs
  | store t cpu object =>
    dsimp only at hs
    split at hs
    · split_ifs at hs
      cases hs
      exact ⟨rfl, rfl⟩
    · cases hs
  | makeEmpty t => exact absurd rfl (ha t)
  | next t =>
    dsimp only at hs
    split at hs
    · exact State.sameExcess_obtainNext h hs
    · cases hs
      exact State.sameExcess_storeNext h _ _ _
    · cases hs
  | returnObject t =>
    dsimp only at hs
    split at hs
    · cases hs
      exact ⟨rfl, rfl⟩
    · cases hs
      exact ⟨rfl, rfl⟩
    · cases hs
      exact ⟨rfl, rfl⟩
    · cases hs
  | resume t cpu =>
    dsimp only at hs
    split at hs
    · split_ifs at hs
      cases hs
      exact ⟨rfl, rfl⟩
    · cases hs
  | allocate t memory =>
    dsimp only at hs
    split at hs
    · split_ifs at hs
      · cases hs
        exact ⟨rfl, rfl⟩
      · cases hs
        exact ⟨rfl, rfl⟩
    · cases hs
  | pushEmptyMagazine t cpu =>
    dsimp only at hs
    split at hs
    next magazine object _ =>
      split_ifs at hs
      cases hs
      have hsame := s.depot.sameExcess_pushEmptyMagazine magazine
      exact ⟨hsame.full, hsame.empty⟩
    · cases hs

lemma counted_step [Fintype T] (h : s.depot.Bounded) (hs : step s a = some s') :
    s'.depot.Bounded ∧ (s'.Counted ↔ s.Counted ∧ s.Detaches a) := by
  by_cases ha : ∀ t, a ≠ .makeEmpty t
  · have hsame := sameExcess_step h hs ha
    have hdetaches : s.Detaches a := by
      cases a with
      | makeEmpty t => exact absurd rfl (ha t)
      | _ => trivial
    have hfull := hsame.full
    have hempty := hsame.empty
    refine ⟨h.keep hsame, ?_⟩
    unfold State.Counted
    constructor
    · rintro ⟨hcount, hcount'⟩
      exact ⟨⟨by omega, by omega⟩, hdetaches⟩
    · rintro ⟨⟨hcount, hcount'⟩, _⟩
      exact ⟨by omega, by omega⟩
  · have ⟨t, he⟩ : ∃ t, a = .makeEmpty t := by
      by_contra hnone
      exact ha fun t he => hnone ⟨t, he⟩
    rw [he] at hs ⊢
    unfold step at hs
    dsimp only at hs
    split at hs
    · split_ifs at hs
      cases hs
      have hle := h.full
      have hle' := h.empty
      constructor
      · exact ⟨Nat.zero_le _, Nat.zero_le _⟩
      · show s.depot.fullCount = 0 ∧ s.depot.emptyCount = 0 ↔ _
        unfold State.Counted State.Detaches
        rw [← List.length_eq_zero_iff, ← List.length_eq_zero_iff]
        omega
    · cases hs

end

/-! ## Runs -/

/-- In every run objects and magazines are where they should be, and the counts are right as long as
`object_depot_make_empty()` has found nothing in the lists. -/
theorem depot_conserves [DecidableEq α] [DecidableEq T] [Fintype T] {capacity maxCount : ℕ}
    {hist : History (State T α cpuCount) (Action T α cpuCount)} {s : State T α cpuCount}
    (hr : Run step (fun _ _ => True) (.init capacity maxCount) hist s) :
    s.Conserves ∧ (s.Counted ↔ ∀ e ∈ hist, e.1.Detaches e.2) := by
  have hinv : s.Inv := hr.invariant (State.inv_init capacity maxCount) fun h _ hs => h.step hs
  have hcounts : s.depot.Bounded ∧ (s.Counted ↔ ∀ e ∈ hist, e.1.Detaches e.2) := by
    induction hr with
    | nil =>
      refine ⟨⟨Nat.zero_le _, Nat.zero_le _⟩, ?_⟩
      constructor
      · intro _ e he
        cases he
      · intro _
        exact ⟨rfl, rfl⟩
    | @snoc hist s s' a run _ taken ih =>
      have hbefore : s.Inv :=
        run.invariant (State.inv_init capacity maxCount) fun h _ hs => h.step hs
      obtain ⟨hbounded, hiff⟩ := ih hbefore
      obtain ⟨hbounded', hstep⟩ := counted_step hbounded taken
      refine ⟨hbounded', ?_⟩
      rw [hstep, hiff, List.forall_mem_cons]
      exact and_comm
  exact ⟨hinv.toConserves, hcounts.2⟩

/-- A thread stores an object, for which it needs a new magazine. -/
def storeFirst (object : ℕ) : List (Action (Fin 1) ℕ 1) :=
  [.store 0 0 object, .next 0, .allocate 0 true, .pushEmptyMagazine 0 0, .next 0, .next 0]

/-- The object is stored, and obtained again. -/
theorem depot_conserves_storeFirst :
    (outcome step (.init 1 1) (storeFirst 5 ++ [.obtain 0 0, .next 0])).Conserves ∧
      (outcome step (.init 1 1) (storeFirst 5 ++ [.obtain 0 0, .next 0])).obtained = [5] := by
  obtain ⟨hist, hr, _⟩ := @run_outcome _ _ (fun _ _ => True) step (fun _ _ => true)
    (fun _ _ _ => trivial) (.init 1 1) (storeFirst 5 ++ [.obtain 0 0, .next 0]) (fun _ => true)
    (by decide)
  exact ⟨(depot_conserves hr).1, by decide⟩

/-- After three objects a magazine is in the list of full ones, when the depot is emptied. -/
def emptyWithFull : List (Action (Fin 1) ℕ 1) :=
  storeFirst 5 ++ storeFirst 6 ++ storeFirst 7 ++ [.makeEmpty 0]

theorem not_counted : ¬∀ (hist : History (State (Fin 1) ℕ 1) (Action (Fin 1) ℕ 1))
    (s : State (Fin 1) ℕ 1), Run step (fun _ _ => True) (.init 1 1) hist s →
      s.Conserves ∧ s.Counted := by
  intro h
  obtain ⟨hist, hr, _⟩ := @run_outcome _ _ (fun _ _ => True) step (fun _ _ => true)
    (fun _ _ _ => trivial) (.init 1 1) emptyWithFull (fun _ => true) (by decide)
  have hcount := (h hist _ hr).2.1
  revert hcount
  decide

end Haiku.Slab.Depot
