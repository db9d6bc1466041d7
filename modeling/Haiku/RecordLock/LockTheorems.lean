import Haiku.Lib.Run
import Haiku.RecordLock.Basic

/-!
# The bytes that are locked

The list of locks is read as the bytes that each team has locked, shared or exclusively. A new lock
adds its region, and a release takes bytes of its region away only; but it also takes away what a lock
has behind the region when the lock starts before it, unless another lock of the team holds that.
-/

namespace Haiku.RecordLock

open Lib

/-! ## Bytes -/

def AdvisoryLock.Covers (lock : AdvisoryLock) (x : Int64) : Prop := lock.start ≤ x ∧ x ≤ lock.last

def Flock.Covers (flock : Flock) (x : Int64) : Prop := flock.start ≤ x ∧ x ≤ flock.last

def InRegion (flock : Option Flock) (x : Int64) : Prop := ∀ f ∈ flock, f.Covers x

/-- A lock of the team, shared or not, holds the byte. -/
def LockedAt (locks : List AdvisoryLock) (team : ℕ) (shared : Bool) (x : Int64) : Prop :=
  ∃ lock ∈ locks, lock.team = team ∧ lock.shared = shared ∧ lock.Covers x

def State.LockedAt (s : State) : ℕ → Bool → Int64 → Prop := RecordLock.LockedAt s.locks

/-- No byte is locked exclusively by one team while locked by another. -/
def State.NoConflict (s : State) : Prop :=
  ∀ team team' shared x, s.LockedAt team false x → s.LockedAt team' shared x → team = team'

instance (lock : AdvisoryLock) (x : Int64) : Decidable (lock.Covers x) :=
  inferInstanceAs (Decidable (_ ∧ _))

instance (flock : Flock) (x : Int64) : Decidable (flock.Covers x) :=
  inferInstanceAs (Decidable (_ ∧ _))

instance (flock : Option Flock) (x : Int64) : Decidable (InRegion flock x) :=
  inferInstanceAs (Decidable (∀ f ∈ flock, f.Covers x))

instance (s : State) (team : ℕ) (shared : Bool) (x : Int64) :
    Decidable (s.LockedAt team shared x) :=
  inferInstanceAs (Decidable (∃ lock ∈ s.locks,
    lock.team = team ∧ lock.shared = shared ∧ lock.Covers x))

/-- What a call is to do to the bytes that are locked -/
inductive Effect
  | nothing
  | adds (team : ℕ) (flock : Flock)
  | removes (team : ℕ) (flock : Option Flock)

def Effect.apply (locked : ℕ → Bool → Int64 → Prop) : Effect → ℕ → Bool → Int64 → Prop
  | .nothing, t, shared, x => locked t shared x
  | .adds team flock, t, shared, x =>
    locked t shared x ∨ t = team ∧ shared = decide (flock.type = .readLock) ∧ flock.Covers x
  | .removes team flock, t, shared, x => locked t shared x ∧ ¬(t = team ∧ InRegion flock x)

/-- An acquire that succeeds adds its region, a release removes its region. -/
def State.effect (s : State) (result : Result) : Call → Effect
  | .setLock call =>
    match normalizeFlock call.descriptor call.flock with
    | .error _ => .nothing
    | .ok flock =>
      if flock.type = .unlock then .removes call.team (some flock)
      else if result = .ok then .adds call.team flock
      else .nothing
  | .retry thread =>
    match s.phases thread with
    | .waits team flock _ => if result = .ok then .adds team flock else .nothing
    | _ => .nothing
  | .close _ team _ => .removes team none
  | .interrupt _ => .nothing
  | .removeLocking _ => .nothing

/-- The call does to the bytes that are locked what it is to do. -/
def State.Exact (s : State) (call : Call) : Prop :=
  ∀ result s', s.perform call = some (result, s') → ∀ team shared x,
    s'.LockedAt team shared x ↔ (s.effect result call).apply s.LockedAt team shared x

/-- What the team has locked behind the region is held by locks that do not start before it. -/
def HeldBehind (locks : List AdvisoryLock) (team : ℕ) (flock : Flock) : Prop :=
  ∀ shared x, flock.last < x → LockedAt locks team shared x →
    ∃ lock ∈ locks, lock.team = team ∧ lock.shared = shared ∧ lock.Covers x ∧
      flock.start ≤ lock.start

/-- No release cuts a lock off behind its region, unless another one holds what it cuts off. -/
def State.Keeps (s : State) : Call → Prop
  | .setLock call => ∀ flock, normalizeFlock call.descriptor call.flock = .ok flock →
      flock.type = .unlock → HeldBehind s.locks call.team flock
  | _ => True

/-! ## Offsets -/

lemma toInt_sub_one {x y : Int64} (h : x < y) : (y - 1).toInt = y.toInt - 1 := by
  rw [Int64.lt_iff_toInt_lt] at h
  have hx := x.le_toInt
  have hy := y.toInt_lt
  have hone : (1 : Int64).toInt = 1 := rfl
  rw [Int64.toInt_sub, hone, Int.bmod_def]
  omega

lemma toInt_add_one {x y : Int64} (h : x < y) : (x + 1).toInt = x.toInt + 1 := by
  rw [Int64.lt_iff_toInt_lt] at h
  have hx := x.le_toInt
  have hy := y.toInt_lt
  have hone : (1 : Int64).toInt = 1 := rfl
  rw [Int64.toInt_add, hone, Int.bmod_def]
  omega

lemma toInt_add_of {x y : Int64} (hle : -2 ^ 63 ≤ x.toInt + y.toInt)
    (hlt : x.toInt + y.toInt < 2 ^ 63) : (x + y).toInt = x.toInt + y.toInt := by
  rw [Int64.toInt_add, Int.bmod_def]
  omega

namespace Flock

variable {flock : Flock}

/-- The region behind which the next one starts is not turned around. -/
def Normal (flock : Flock) : Prop := flock.start.toInt ≤ flock.last.toInt + 1

lemma next_eq (flock : Flock) : flock.next = flock.last + 1 := by
  unfold next last
  grind

lemma toInt_next {x : Int64} (h : flock.last < x) : flock.next.toInt = flock.last.toInt + 1 := by
  rw [next_eq]
  exact toInt_add_one h

lemma normal_clip (flock : Flock) (start : Int64) : (clip flock start).Normal := by
  have hzero : (0 : Int64).toInt = 0 := rfl
  have hmax : offMax.toInt = 2 ^ 63 - 1 := Int64.toInt_maxValue
  unfold clip
  dsimp only
  -- a region does not start before the file
  generalize hfrom : (if start < 0 then 0 else start) = first
  have hfirst : 0 ≤ first.toInt := by
    rw [← hfrom]
    split_ifs with hneg
    · exact le_of_eq hzero.symm
    · rw [Int64.lt_iff_toInt_lt, hzero] at hneg
      omega
  generalize (if flock.len = 0 then offMax else flock.len) = wanted
  generalize hlen : (if first > 0 ∧ offMax - first < wanted then offMax - first else wanted) = len
  have hupper := first.toInt_lt
  have hsub : (offMax - first).toInt = 2 ^ 63 - 1 - first.toInt := by
    rw [Int64.toInt_sub, hmax, Int.bmod_def]
    omega
  have hlenUpper := len.toInt_lt
  have hlenLower := len.le_toInt
  have hfits : first.toInt + len.toInt ≤ 2 ^ 63 - 1 := by
    rw [← hlen]
    have hwanted := wanted.toInt_lt
    split_ifs with hclip
    · omega
    · by_cases hpos : first > 0
      · have hle : ¬ offMax - first < wanted := fun hlt => hclip ⟨hpos, hlt⟩
        rw [Int64.lt_iff_toInt_lt] at hle
        omega
      · have hnot : ¬ (0 : Int64) < first := hpos
        rw [Int64.lt_iff_toInt_lt, hzero] at hnot
        omega
  have hbefore : (first - 1).toInt = first.toInt - 1 := by
    have hone : (1 : Int64).toInt = 1 := rfl
    rw [Int64.toInt_sub, hone, Int.bmod_def]
    omega
  unfold Normal last
  split_ifs with hneg
  · -- the region was turned around
    rw [Int64.lt_iff_toInt_lt, hzero] at hneg
    have hadd : (first + len).toInt = first.toInt + len.toInt := toInt_add_of (by omega) (by omega)
    have hlast : first + len - 1 + -len = first - 1 := by grind
    show (first + len).toInt ≤ (first + len - 1 + -len).toInt + 1
    rw [hlast, hadd, hbefore]
    omega
  · rw [Int64.lt_iff_toInt_lt, hzero] at hneg
    show first.toInt ≤ (first - 1 + len).toInt + 1
    rw [toInt_add_of (by omega) (by omega), hbefore]
    omega

end Flock

lemma normal_normalizeFlock {descriptor : FileDescriptor} {flock flock' : Flock}
    (h : normalizeFlock descriptor flock = .ok flock') : flock'.Normal := by
  unfold normalizeFlock at h
  cases hstart : absoluteStart descriptor flock with
  | error error =>
    rw [hstart] at h
    cases h
  | ok start =>
    rw [hstart] at h
    cases h
    exact Flock.normal_clip flock start

/-! ## Releases -/

/-- A byte of the lock stays locked when the region is released. -/
def AdvisoryLock.Survives (lock : AdvisoryLock) (flock : Flock) (x : Int64) : Prop :=
  x < flock.start ∨ flock.last < x ∧ flock.start ≤ lock.start

def AdvisoryLock.Leaves (lock : AdvisoryLock) (team session : ℕ) (flock : Option Flock)
    (new : AdvisoryLock) : Prop :=
  (lock.release team session flock).1 = some new ∨ (lock.release team session flock).2 = some new

variable {lock new : AdvisoryLock} {locks : List AdvisoryLock} {team session : ℕ} {shared : Bool}
  {flock : Option Flock} {region : Flock} {x : Int64}

lemma AdvisoryLock.not_session (h : lock.session = posixSession) (session : ℕ) :
    ¬ lock.session = session := by
  rw [h]
  unfold posixSession
  omega

lemma AdvisoryLock.Leaves.same (h : lock.Leaves team session flock new) :
    new.team = lock.team ∧ new.session = lock.session ∧ new.shared = lock.shared := by
  unfold AdvisoryLock.Leaves AdvisoryLock.release at h
  split_ifs at h
  · rcases h with h | h
    · cases h
    · cases h
  · split at h
    · rcases h with h | h
      · cases h
      · cases h
    · dsimp only at h
      split_ifs at h
      all_goals
        rcases h with h | h
        all_goals
          cases h
      all_goals exact ⟨rfl, rfl, rfl⟩
  · rcases h with h | h
    · cases h
      exact ⟨rfl, rfl, rfl⟩
    · cases h

lemma AdvisoryLock.release_region (hsession : ¬ lock.session = session)
    (hmine : lock.team = team ∧ lock.intersects (some region) = true) :
    lock.release team session (some region) =
      if lock.start < region.start then
        if region.last < lock.last then
          (some { lock with last := region.start - 1 },
            some { lock with start := region.next, last := region.start - 1 })
        else (some { lock with last := region.start - 1 }, none)
      else if region.last < lock.last then (some { lock with start := region.next }, none)
      else (none, none) := by
  unfold AdvisoryLock.release
  rw [if_neg hsession, if_pos hmine]
  by_cases hbefore : lock.start < region.start
  · by_cases hbeyond : region.last < lock.last
    · simp [hbefore, hbeyond]
    · simp [hbefore, hbeyond]
  · by_cases hbeyond : region.last < lock.last
    · simp [hbefore, hbeyond]
    · simp [hbefore, hbeyond]

lemma AdvisoryLock.leaves_region (hsession : ¬ lock.session = session)
    (hmine : lock.team = team ∧ lock.intersects (some region) = true) :
    (∃ new, lock.Leaves team session (some region) new ∧ new.Covers x) ↔
      lock.Covers x ∧ lock.Survives region x := by
  have hmeets := hmine.2
  unfold AdvisoryLock.intersects at hmeets
  simp only [Bool.and_eq_true, decide_eq_true_eq, Int64.le_iff_toInt_le] at hmeets
  unfold AdvisoryLock.Leaves
  rw [AdvisoryLock.release_region hsession hmine]
  unfold AdvisoryLock.Covers AdvisoryLock.Survives
  by_cases hbefore : lock.start < region.start
  · have hsub := toInt_sub_one hbefore
    rw [if_pos hbefore]
    by_cases hbeyond : region.last < lock.last
    · -- what is added covers nothing
      have hnext := Flock.toInt_next hbeyond
      rw [if_pos hbeyond]
      rw [Int64.lt_iff_toInt_lt] at hbefore hbeyond
      simp only [Option.some.injEq, or_and_right, exists_or, exists_eq_left',
        Int64.le_iff_toInt_le, Int64.lt_iff_toInt_lt]
      omega
    · rw [if_neg hbeyond]
      rw [Int64.lt_iff_toInt_lt] at hbefore hbeyond
      simp only [Option.some.injEq, reduceCtorEq, or_false, exists_eq_left',
        Int64.le_iff_toInt_le, Int64.lt_iff_toInt_lt]
      omega
  · rw [if_neg hbefore]
    by_cases hbeyond : region.last < lock.last
    · have hnext := Flock.toInt_next hbeyond
      rw [if_pos hbeyond]
      rw [Int64.lt_iff_toInt_lt] at hbefore hbeyond
      simp only [Option.some.injEq, reduceCtorEq, or_false, exists_eq_left',
        Int64.le_iff_toInt_le, Int64.lt_iff_toInt_lt]
      omega
    · rw [if_neg hbeyond]
      rw [Int64.lt_iff_toInt_lt] at hbefore hbeyond
      simp only [reduceCtorEq, or_false, false_and, exists_false, false_iff,
        Int64.le_iff_toInt_le, Int64.lt_iff_toInt_lt]
      omega

lemma AdvisoryLock.leaves_iff (hposix : lock.session = posixSession)
    (hnormal : ∀ f ∈ flock, f.Normal) :
    (∃ new, lock.Leaves team session flock new ∧ new.Covers x) ↔
      lock.Covers x ∧ (lock.team = team → ∃ f ∈ flock, lock.Survives f x) := by
  have hsession := lock.not_session hposix session
  by_cases hmine : lock.team = team ∧ lock.intersects flock = true
  · cases flock with
    | none =>
      have hnone : lock.release team session none = (none, none) := by
        unfold AdvisoryLock.release
        rw [if_neg hsession, if_pos hmine]
      unfold AdvisoryLock.Leaves
      rw [hnone]
      simp [hmine.1]
    | some region =>
      rw [AdvisoryLock.leaves_region hsession hmine]
      simp [hmine.1]
  · have hkept : lock.release team session flock = (some lock, none) := by
      unfold AdvisoryLock.release
      rw [if_neg hsession, if_neg hmine]
    unfold AdvisoryLock.Leaves
    rw [hkept]
    simp only [Option.some.injEq, reduceCtorEq, or_false, exists_eq_left']
    constructor
    · intro hcovers
      refine ⟨hcovers, ?_⟩
      intro hteam
      -- a lock of the team that does not meet the region lies before it or behind it
      cases flock with
      | none => exact absurd ⟨hteam, rfl⟩ hmine
      | some region =>
        refine ⟨region, rfl, ?_⟩
        have hturned : region.start.toInt ≤ region.last.toInt + 1 := hnormal region rfl
        have hapart : ¬ (lock.start.toInt ≤ region.last.toInt ∧
            region.start.toInt ≤ lock.last.toInt) := by
          intro hmeets
          apply hmine
          unfold AdvisoryLock.intersects
          simp only [Bool.and_eq_true, decide_eq_true_eq, Int64.le_iff_toInt_le]
          exact ⟨hteam, hmeets⟩
        unfold AdvisoryLock.Covers at hcovers
        unfold AdvisoryLock.Survives
        simp only [Int64.le_iff_toInt_le, Int64.lt_iff_toInt_lt] at hcovers ⊢
        omega
    · intro h
      exact h.1

section

variable (hposix : ∀ lock ∈ locks, lock.session = posixSession)
include hposix

lemma lockedAt_releaseLocks (hnormal : ∀ f ∈ flock, f.Normal) (t : ℕ) (shared : Bool) (x : Int64) :
    LockedAt (releaseLocks team session flock locks) t shared x ↔
      ∃ lock ∈ locks, lock.team = t ∧ lock.shared = shared ∧ lock.Covers x ∧
        (t = team → ∃ f ∈ flock, lock.Survives f x) := by
  have hmem : ∀ new, new ∈ releaseLocks team session flock locks ↔
      ∃ lock ∈ locks, lock.Leaves team session flock new := by
    intro new
    unfold releaseLocks AdvisoryLock.Leaves
    rw [List.mem_append, List.mem_filterMap, List.mem_filterMap]
    constructor
    · intro h
      rcases h with ⟨lock, hlock, h⟩ | ⟨lock, hlock, h⟩
      · exact ⟨lock, hlock, Or.inl h⟩
      · exact ⟨lock, hlock, Or.inr h⟩
    · rintro ⟨lock, hlock, h⟩
      rcases h with h | h
      · exact Or.inl ⟨lock, hlock, h⟩
      · exact Or.inr ⟨lock, hlock, h⟩
  unfold LockedAt
  constructor
  · rintro ⟨new, hnew, hteam, hshared, hcovers⟩
    obtain ⟨lock, hlock, hleaves⟩ := (hmem new).1 hnew
    obtain ⟨hsameTeam, _, hsameShared⟩ := hleaves.same
    obtain ⟨hold, hsurvives⟩ := (AdvisoryLock.leaves_iff (hposix lock hlock) hnormal).1
      ⟨new, hleaves, hcovers⟩
    refine ⟨lock, hlock, hsameTeam.symm.trans hteam, hsameShared.symm.trans hshared, hold, ?_⟩
    intro ht
    exact hsurvives (hsameTeam.symm.trans (hteam.trans ht))
  · rintro ⟨lock, hlock, hteam, hshared, hcovers, hsurvives⟩
    have hleft : ∃ new, lock.Leaves team session flock new ∧ new.Covers x :=
      (AdvisoryLock.leaves_iff (hposix lock hlock) hnormal).2
        ⟨hcovers, fun ht => hsurvives (hteam.symm.trans ht)⟩
    obtain ⟨new, hleaves, hnew⟩ := hleft
    obtain ⟨hsameTeam, _, hsameShared⟩ := hleaves.same
    exact ⟨new, (hmem new).2 ⟨lock, hlock, hleaves⟩, hsameTeam.trans hteam,
      hsameShared.trans hshared, hnew⟩

lemma posix_releaseLocks :
    ∀ lock ∈ releaseLocks team session flock locks, lock.session = posixSession := by
  intro new hnew
  unfold releaseLocks at hnew
  rw [List.mem_append, List.mem_filterMap, List.mem_filterMap] at hnew
  have hleaves : ∃ lock ∈ locks, lock.Leaves team session flock new := by
    rcases hnew with ⟨lock, hlock, h⟩ | ⟨lock, hlock, h⟩
    · exact ⟨lock, hlock, Or.inl h⟩
    · exact ⟨lock, hlock, Or.inr h⟩
  obtain ⟨lock, hlock, h⟩ := hleaves
  exact h.same.2.1.trans (hposix lock hlock)

lemma releaseLocks_exact_iff (hnormal : region.Normal) :
    (∀ t shared x, LockedAt (releaseLocks team session (some region) locks) t shared x ↔
      LockedAt locks t shared x ∧ ¬(t = team ∧ InRegion (some region) x)) ↔
        HeldBehind locks team region := by
  have hlocked := fun t shared x => @lockedAt_releaseLocks locks team session (some region) hposix
    (fun f hf => by
      cases hf
      exact hnormal) t shared x
  have hregion : ∀ x, InRegion (some region) x ↔ region.Covers x := by
    intro x
    unfold InRegion
    simp
  have hsome : ∀ lock : AdvisoryLock, ∀ x,
      (∃ f ∈ some region, lock.Survives f x) ↔ lock.Survives region x := by
    intro lock x
    simp
  unfold Flock.Normal at hnormal
  constructor
  · intro hexact shared x hbehind hbefore
    have hout : ¬(team = team ∧ InRegion (some region) x) := by
      rw [hregion]
      unfold Flock.Covers
      rw [Int64.le_iff_toInt_le, Int64.le_iff_toInt_le]
      rw [Int64.lt_iff_toInt_lt] at hbehind
      omega
    have hafter := (hexact team shared x).2 ⟨hbefore, hout⟩
    obtain ⟨lock, hlock, hteam, hshared, hcovers, hsurvives⟩ := (hlocked team shared x).1 hafter
    refine ⟨lock, hlock, hteam, hshared, hcovers, ?_⟩
    have hsurvives := (hsome lock x).1 (hsurvives rfl)
    unfold AdvisoryLock.Survives at hsurvives
    simp only [Int64.le_iff_toInt_le, Int64.lt_iff_toInt_lt] at hsurvives hbehind ⊢
    omega
  · intro hheld t shared x
    rw [hlocked]
    constructor
    · rintro ⟨lock, hlock, hteam, hshared, hcovers, hsurvives⟩
      refine ⟨⟨lock, hlock, hteam, hshared, hcovers⟩, ?_⟩
      rintro ⟨ht, hin⟩
      have hin := (hregion x).1 hin
      have hsurvives := (hsome lock x).1 (hsurvives ht)
      unfold AdvisoryLock.Survives at hsurvives
      unfold Flock.Covers at hin
      simp only [Int64.le_iff_toInt_le, Int64.lt_iff_toInt_lt] at hsurvives hin
      omega
    · rintro ⟨⟨lock, hlock, hteam, hshared, hcovers⟩, hout⟩
      by_cases ht : t = team
      · by_cases hbehind : region.last < x
        · -- another lock may hold the byte
          obtain ⟨held, hheld, hteam', hshared', hcovers', hstart⟩ :=
            hheld shared x hbehind ⟨lock, hlock, hteam.trans ht, hshared, hcovers⟩
          exact ⟨held, hheld, hteam'.trans ht.symm, hshared', hcovers',
            fun _ => ⟨region, rfl, Or.inr ⟨hbehind, hstart⟩⟩⟩
        · have hbefore : x < region.start := by
            rw [hregion] at hout
            unfold Flock.Covers at hout
            simp only [Int64.le_iff_toInt_le, Int64.lt_iff_toInt_lt] at hout hbehind ⊢
            by_contra hnot
            exact hout ⟨ht, by omega, by omega⟩
          exact ⟨lock, hlock, hteam, hshared, hcovers, fun _ => ⟨region, rfl, Or.inl hbefore⟩⟩
      · exact ⟨lock, hlock, hteam, hshared, hcovers, fun he => absurd he ht⟩

end

/-! ## Acquiring -/

lemma lockedAt_append (team : ℕ) (region : Flock) (t : ℕ) (shared : Bool) (x : Int64) :
    LockedAt (locks ++ [newLock team region]) t shared x ↔
      LockedAt locks t shared x ∨
        t = team ∧ shared = decide (region.type = .readLock) ∧ region.Covers x := by
  unfold LockedAt
  constructor
  · rintro ⟨lock, hlock, hteam, hshared, hcovers⟩
    rcases List.mem_append.1 hlock with hlock | hlock
    · exact Or.inl ⟨lock, hlock, hteam, hshared, hcovers⟩
    · rw [List.mem_singleton.1 hlock] at hteam hshared hcovers
      exact Or.inr ⟨hteam.symm, hshared.symm, hcovers⟩
  · intro h
    rcases h with ⟨lock, hlock, h⟩ | ⟨hteam, hshared, hcovers⟩
    · exact ⟨lock, List.mem_append_left _ hlock, h⟩
    · refine ⟨newLock team region, List.mem_append_right _ (List.mem_singleton.2 rfl), ?_⟩
      exact ⟨hteam.symm, hshared.symm, hcovers⟩

lemma shared_of_not_collides (h : collides team region locks = false) {t : ℕ}
    (hlocked : LockedAt locks t shared x) (hregion : region.Covers x) (ht : t ≠ team) :
    shared = true ∧ region.type = .readLock := by
  obtain ⟨lock, hlock, hteam, hshared, hcovers⟩ := hlocked
  unfold collides at h
  rw [List.any_eq_false] at h
  have hnot := h lock hlock
  have hmeets : lock.intersects (some region) = true := by
    unfold AdvisoryLock.intersects
    unfold AdvisoryLock.Covers at hcovers
    unfold Flock.Covers at hregion
    simp only [Bool.and_eq_true, decide_eq_true_eq, Int64.le_iff_toInt_le] at hcovers hregion ⊢
    omega
  have hother : lock.team ≠ team := by
    rw [hteam]
    exact ht
  rw [← hshared]
  simp only [hmeets, Bool.and_true, Bool.and_eq_true, Bool.or_eq_true, bne_iff_ne, ne_eq,
    Bool.not_eq_eq_eq_not, Bool.not_true, not_and, not_or, not_not] at hnot
  obtain ⟨hread, hboth⟩ := hnot hother
  exact ⟨by simpa using hboth, hread⟩

/-! ## Calls -/

namespace State

variable {s s' : State} {thread t : ℕ} {result : Result}

/-- All locks are those of POSIX, and they do not conflict. -/
structure Inv (s : State) : Prop where
  posix : ∀ lock ∈ s.locks, lock.session = posixSession
  conflict : s.NoConflict

lemma inv_initial : State.initial.Inv where
  posix lock hlock := by cases hlock
  conflict team team' shared x h := by
    obtain ⟨lock, hlock, _⟩ := h
    cases hlock



lemma Inv.of_locks (h : s.Inv) (hlocks : s'.locks = s.locks) : s'.Inv where
  posix := by
    rw [hlocks]
    exact h.posix
  conflict := by
    unfold NoConflict State.LockedAt
    rw [hlocks]
    exact h.conflict

lemma acquire_cases (s : State) (thread team : ℕ) (flock : Flock) (wait : Bool) :
    (s.acquire thread team flock wait).1 ≠ .ok ∧
        (s.acquire thread team flock wait).2.locks = s.locks ∨
      (s.acquire thread team flock wait).1 = .ok ∧ collides team flock s.locks = false ∧
        (s.acquire thread team flock wait).2.locks = s.locks ++ [newLock team flock] := by
  unfold acquire
  have hlocks : ({ s with advisoryLocking := some s.locks } : State).locks = s.locks := rfl
  dsimp only
  rw [hlocks]
  by_cases hcollides : collides team flock s.locks = true
  · rw [if_pos hcollides]
    cases wait
    · exact Or.inl ⟨by simp, rfl⟩
    · exact Or.inl ⟨by simp, rfl⟩
  · rw [if_neg hcollides]
    exact Or.inr ⟨rfl, by simpa using hcollides, rfl⟩

lemma Inv.acquire (h : s.Inv) (thread team : ℕ) (flock : Flock) (wait : Bool) :
    (s.acquire thread team flock wait).2.Inv := by
  rcases s.acquire_cases thread team flock wait with ⟨_, hlocks⟩ | ⟨_, hfree, hlocks⟩
  · exact h.of_locks hlocks
  · constructor
    · rw [hlocks]
      intro lock hlock
      rcases List.mem_append.1 hlock with hlock | hlock
      · exact h.posix lock hlock
      · rw [List.mem_singleton.1 hlock]
        rfl
    · unfold NoConflict State.LockedAt
      rw [hlocks]
      intro t t' shared x hexclusive hlocked
      rw [lockedAt_append] at hexclusive hlocked
      rcases hexclusive with hexclusive | ⟨ht, hwrite, hcovers⟩
      · rcases hlocked with hlocked | ⟨ht', _, hcovers⟩
        · exact h.conflict t t' shared x hexclusive hlocked
        · by_contra hne
          rw [ht'] at hne
          have hshared := (shared_of_not_collides hfree hexclusive hcovers hne).1
          cases hshared
      · rcases hlocked with hlocked | ⟨ht', _, _⟩
        · by_contra hne
          rw [ht] at hne
          have hread := (shared_of_not_collides hfree hlocked hcovers (Ne.symm hne)).2
          rw [decide_eq_true hread] at hwrite
          cases hwrite
        · exact ht.trans ht'.symm

lemma acquire_exact (s : State) (thread team : ℕ) (flock : Flock) (wait : Bool) (t : ℕ)
    (shared : Bool) (x : Int64) :
    (s.acquire thread team flock wait).2.LockedAt t shared x ↔
      (if (s.acquire thread team flock wait).1 = .ok then Effect.adds team flock
        else .nothing).apply s.LockedAt t shared x := by
  unfold State.LockedAt
  rcases s.acquire_cases thread team flock wait with ⟨hfails, hlocks⟩ | ⟨hok, _, hlocks⟩
  · rw [if_neg hfails, hlocks]
    rfl
  · rw [if_pos hok, hlocks, lockedAt_append]
    rfl

lemma release_locks (s : State) (thread team session : ℕ) (flock : Option Flock) :
    (s.release thread team session flock).2.locks = releaseLocks team session flock s.locks := by
  unfold release
  cases hlocking : s.advisoryLocking with
  | none =>
    dsimp only
    unfold locks
    rw [hlocking]
    rfl
  | some locks =>
    dsimp only
    unfold State.locks
    rw [hlocking]
    rfl

lemma Inv.release (h : s.Inv) (thread team session : ℕ) (flock : Option Flock)
    (hnormal : ∀ f ∈ flock, f.Normal) : (s.release thread team session flock).2.Inv := by
  have hlocks := s.release_locks thread team session flock
  -- a release takes bytes away only
  have hbefore : ∀ t shared x, (s.release thread team session flock).2.LockedAt t shared x →
      s.LockedAt t shared x := by
    intro t shared x hlocked
    unfold State.LockedAt at hlocked
    rw [hlocks, lockedAt_releaseLocks h.posix hnormal] at hlocked
    obtain ⟨lock, hlock, hteam, hshared, hcovers, _⟩ := hlocked
    exact ⟨lock, hlock, hteam, hshared, hcovers⟩
  constructor
  · rw [hlocks]
    exact posix_releaseLocks h.posix
  · intro t t' shared x hexclusive hlocked
    exact h.conflict t t' shared x (hbefore _ _ _ hexclusive) (hbefore _ _ _ hlocked)

lemma release_all_exact (h : s.Inv) (thread team session t : ℕ) (shared : Bool) (x : Int64) :
    (s.release thread team session none).2.LockedAt t shared x ↔
      (Effect.removes team none).apply s.LockedAt t shared x := by
  unfold State.LockedAt
  rw [release_locks, lockedAt_releaseLocks h.posix (fun f hf => by cases hf)]
  unfold Effect.apply InRegion RecordLock.LockedAt
  constructor
  · rintro ⟨lock, hlock, hteam, hshared, hcovers, hnone⟩
    refine ⟨⟨lock, hlock, hteam, hshared, hcovers⟩, ?_⟩
    rintro ⟨ht, _⟩
    obtain ⟨f, hf, _⟩ := hnone ht
    cases hf
  · rintro ⟨⟨lock, hlock, hteam, hshared, hcovers⟩, hnot⟩
    refine ⟨lock, hlock, hteam, hshared, hcovers, ?_⟩
    intro ht
    exact absurd ⟨ht, fun f hf => by cases hf⟩ hnot

lemma locks_removeLocking (s : State) (thread : ℕ) :
    (s.removeLocking thread).locks = s.locks := by
  unfold removeLocking
  split_ifs with hempty
  · unfold locks
    rw [hempty]
    rfl
  · rfl

lemma Inv.setLock_exact_iff (h : s.Inv) (call : LockCall) :
    (∀ team shared x, (s.setLock call).2.LockedAt team shared x ↔
      (s.effect (s.setLock call).1 (.setLock call)).apply s.LockedAt team shared x) ↔
        s.Keeps (.setLock call) := by
  unfold setLock effect Keeps
  dsimp only
  generalize hflock : normalizeFlock call.descriptor call.flock = normalized
  cases normalized with
  | error error =>
    dsimp only
    constructor
    · intro _ flock he
      cases he
    · intro _ team shared x
      rfl
  | ok flock =>
    dsimp only
    by_cases hunlock : flock.type = .unlock
    · simp only [if_pos hunlock]
      have hiff := @releaseLocks_exact_iff s.locks call.team call.session flock h.posix
        (normal_normalizeFlock hflock)
      unfold State.LockedAt Effect.apply
      rw [release_locks]
      constructor
      · intro hall flock₁ he _
        cases he
        exact hiff.1 hall
      · intro hkeeps
        exact hiff.2 (hkeeps flock rfl hunlock)
    · simp only [if_neg hunlock]
      constructor
      · intro _ flock₁ he htype
        cases he
        exact absurd htype hunlock
      · intro _ team shared x
        by_cases hdenied : (!call.descriptor.allows flock.type) = true
        · simp only [if_pos hdenied]
          rfl
        · simp only [if_neg hdenied]
          exact acquire_exact _ _ _ _ _ _ _ _

lemma Inv.exact_iff (h : s.Inv) {call : Call} (hc : s.perform call = some (result, s')) :
    s.Exact call ↔ s.Keeps call := by
  have hexact : s.Exact call ↔ ∀ team shared x,
      s'.LockedAt team shared x ↔ (s.effect result call).apply s.LockedAt team shared x := by
    unfold Exact
    rw [hc]
    constructor
    · intro hall
      exact hall result s' rfl
    · intro hall result₁ s₁ he
      cases he
      exact hall
  rw [hexact]
  unfold perform at hc
  cases call with
  | setLock call =>
    dsimp only at hc
    split_ifs at hc
    have hset := Option.some.inj hc
    have hiff := h.setLock_exact_iff call
    rw [hset] at hiff
    exact hiff
  | retry thread =>
    dsimp only at hc
    unfold effect Keeps
    cases hphase : s.phases thread with
    | waits team flock notified =>
      rw [hphase] at hc
      cases notified with
      | true =>
        have hset := Option.some.inj hc
        have hresult : result = (s.acquire thread team flock true).1 := by rw [hset]
        have hs' : s' = (s.acquire thread team flock true).2 := by rw [hset]
        simp only [hresult, hs', hphase, iff_true]
        exact acquire_exact s thread team flock true
      | false => cases hc
    | outside =>
      rw [hphase] at hc
      cases hc
    | removes =>
      rw [hphase] at hc
      cases hc
  | interrupt thread =>
    dsimp only at hc
    split at hc
    · cases hc
      exact ⟨fun _ => trivial, fun _ _ _ _ => Iff.rfl⟩
    · cases hc
  | close thread team session =>
    dsimp only at hc
    split_ifs at hc
    have hset := Option.some.inj hc
    have hs' : s' = (s.release thread team session none).2 := by rw [hset]
    rw [hs']
    exact ⟨fun _ => trivial, fun _ => release_all_exact h thread team session⟩
  | removeLocking thread =>
    dsimp only at hc
    split_ifs at hc
    cases hc
    unfold State.LockedAt effect Effect.apply
    rw [locks_removeLocking]
    exact ⟨fun _ => trivial, fun _ _ _ _ => Iff.rfl⟩

lemma Inv.setLock (h : s.Inv) (call : LockCall) : (s.setLock call).2.Inv := by
  unfold State.setLock
  generalize hflock : normalizeFlock call.descriptor call.flock = normalized
  cases normalized with
  | error error => exact h
  | ok flock =>
    dsimp only
    split_ifs
    · apply h.release
      intro f hf
      cases hf
      exact normal_normalizeFlock hflock
    · exact h
    · exact h.acquire _ _ _ _

lemma Inv.step (h : s.Inv) {call : Call} (hc : s.step call = some s') : s'.Inv := by
  obtain ⟨⟨result, s₁⟩, hperform, he⟩ := Option.map_eq_some_iff.1 hc
  subst he
  unfold perform at hperform
  cases call with
  | setLock call =>
    dsimp only at hperform
    split_ifs at hperform
    have hset := h.setLock call
    rw [Option.some.inj hperform] at hset
    exact hset
  | retry thread =>
    dsimp only at hperform
    split at hperform
    next team flock _ =>
      have hset := h.acquire thread team flock true
      rw [Option.some.inj hperform] at hset
      exact hset
    · cases hperform
  | interrupt thread =>
    dsimp only at hperform
    split at hperform
    · cases hperform
      exact h.of_locks rfl
    · cases hperform
  | close thread team session =>
    dsimp only at hperform
    split_ifs at hperform
    have hset := h.release thread team session none (fun f hf => by cases hf)
    rw [Option.some.inj hperform] at hset
    exact hset
  | removeLocking thread =>
    dsimp only at hperform
    split_ifs at hperform
    cases hperform
    exact h.of_locks (s.locks_removeLocking thread)

end State

/-! ## Runs -/

/-- After every run no locks conflict, and its calls have all been exact if and only if no release has
cut a lock off behind its region. -/
theorem locks_exact_iff {hist : History State Call} {s : State}
    (hr : Run State.step (fun _ _ => True) .initial hist s) :
    s.NoConflict ∧ ((∀ e ∈ hist, e.1.Exact e.2) ↔ ∀ e ∈ hist, e.1.Keeps e.2) := by
  have hinv : s.Inv ∧ ((∀ e ∈ hist, e.1.Exact e.2) ↔ ∀ e ∈ hist, e.1.Keeps e.2) := by
    induction hr with
    | nil => exact ⟨State.inv_initial, by simp⟩
    | @snoc hist s s' call run _ taken ih =>
      obtain ⟨h, hiff⟩ := ih
      obtain ⟨⟨result, s₁⟩, hperform, he⟩ := Option.map_eq_some_iff.1 taken
      refine ⟨h.step taken, ?_⟩
      rw [List.forall_mem_cons, List.forall_mem_cons, hiff, h.exact_iff hperform]
  exact ⟨hinv.1.conflict, hinv.2⟩

/-- A call of `fcntl()` of the thread of a team, for a region from the start of the file -/
def request (team : ℕ) (type : LockType) (start len : Int64) (wait : Bool) : Call :=
  .setLock ⟨team, team, team, ⟨0, .readWrite, .ok 0⟩, ⟨type, .set, start, len⟩, wait⟩

/-- A team waits until another one has released what it waits for. -/
def lockInTurn : List Call :=
  [request 1 .writeLock 0 10 false, request 2 .readLock 5 10 true, request 1 .unlock 5 5 false,
    .retry 2]

/-- The second team has its lock in the end. -/
theorem locks_exact_iff_lockInTurn :
    (outcome State.step .initial lockInTurn).NoConflict ∧
      (outcome State.step .initial lockInTurn).locks.length = 2 := by
  obtain ⟨hist, hr, _⟩ := @run_outcome _ _ (fun _ _ => True) State.step (fun _ _ => true)
    (fun _ _ _ => trivial) .initial lockInTurn (fun _ => true) (by decide)
  exact ⟨(locks_exact_iff hr).1, by decide⟩

def tenBytes : State := outcome State.step .initial [request 1 .writeLock 0 10 false]

def releaseFifth : Call := request 1 .unlock 4 1 false

/-- The end of the lock that is divided is lost. -/
theorem not_locks_exact : ¬∀ (hist : History State Call) (s : State),
    Run State.step (fun _ _ => True) .initial hist s →
      s.NoConflict ∧ ∀ e ∈ hist, e.1.Exact e.2 := by
  intro h
  have hlock : Run State.step (fun _ _ => True) .initial
      [(.initial, request 1 .writeLock 0 10 false)] tenBytes :=
    .snoc .nil trivial (step_outcome (by decide))
  have hstep : tenBytes.step releaseFifth = some (outcome State.step tenBytes [releaseFifth]) :=
    step_outcome (by decide)
  have hexact : tenBytes.Exact releaseFifth :=
    (h _ _ (hlock.snoc trivial hstep)).2 (tenBytes, releaseFifth) List.mem_cons_self
  obtain ⟨⟨result, s'⟩, hperform, he⟩ := Option.map_eq_some_iff.1 hstep
  have hafter : s' = outcome State.step tenBytes [releaseFifth] := he
  have hregion : normalizeFlock ⟨0, .readWrite, .ok 0⟩ ⟨.unlock, .set, 4, 1⟩ =
      .ok ⟨.unlock, .set, 4, 1⟩ := rfl
  have heffect : tenBytes.effect result releaseFifth =
      .removes 1 (some ⟨.unlock, .set, 4, 1⟩) := by
    unfold State.effect
    dsimp only [releaseFifth, request]
    rw [hregion]
    rfl
  have hbyte := hexact result s' hperform 1 false 7
  rw [heffect, hafter] at hbyte
  have hlocked := hbyte.2 ⟨by decide, by decide⟩
  revert hlocked
  decide

end Haiku.RecordLock
