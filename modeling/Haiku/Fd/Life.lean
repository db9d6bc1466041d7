import Haiku.Fd.Basic

/-!
# The life of a descriptor

What holds of the counters of a descriptor and of the calls of its hooks depends on how many slots
and threads have it. A change of these numbers leads from one state of its life to another.
-/

namespace Haiku.Fd

open Lib

/-- How many slots have a descriptor, and how many threads are where: with a reference only, with an
open reference, or with that of a slot; `users` counts those that got it from a table. -/
structure Counts where
  slots : ℕ
  plain : ℕ
  openUsers : ℕ
  closing : ℕ
  users : ℕ

variable {d : Descriptor} {n n' : Counts} {closes frees : ℕ} {created : Bool}

/-- A descriptor whose hooks have not both been called. References of slots that were closed after
it had been disconnected are leaked. -/
structure Live (d : Descriptor) (n : Counts) (closes frees : ℕ) : Prop where
  ops : d.ops = true
  counters : ∃ leaked : ℕ, (0 < leaked → d.disconnected = true) ∧
    d.refCount = n.slots + leaked + n.plain + n.openUsers + n.closing ∧
      d.openCount = n.slots + leaked + n.openUsers + n.closing
  closes : closes = if d.openCount = 0 then 1 else 0
  frees : frees = 0
  held : 0 < n.slots + n.plain + n.openUsers + n.closing

/-- A descriptor that has been closed and freed because it has been disconnected -/
structure Spent (d : Descriptor) (n : Counts) (closes frees : ℕ) : Prop where
  ops : d.ops = false
  disconnected : d.disconnected = true
  refCount : d.refCount < 0
  openCount : d.openCount < 0
  closes : closes = 1
  frees : frees = 1
  openUsers : n.openUsers = 0
  users : n.users = 0

structure Gone (n : Counts) (created : Bool) (closes frees : ℕ) : Prop where
  slots : n.slots = 0
  plain : n.plain = 0
  openUsers : n.openUsers = 0
  closing : n.closing = 0
  users : n.users = 0
  hooks : closes = frees ∧ frees = if created then 1 else 0

def Good : Option Descriptor → Bool → Counts → ℕ → ℕ → Prop
  | none, created, n, closes, frees => Gone n created closes frees
  | some d, created, n, closes, frees =>
    created = true ∧ (Live d n closes frees ∨ Spent d n closes frees)

section

variable (h : Live d n closes frees)
include h

lemma Live.openCount_pos (hn : 0 < n.slots + n.openUsers + n.closing) : 0 < d.openCount := by
  obtain ⟨leaked, -, -, hopen⟩ := h.counters
  omega

lemma Live.closes_eq_zero (hopen : 0 < d.openCount) : closes = 0 := by
  have hc := h.closes
  rw [if_neg (by omega)] at hc
  exact hc

/-! ## New references -/

lemma Live.get (hslots : n'.slots = n.slots)
    (hplain : n'.plain = n.plain + 1) (hopen : n'.openUsers = n.openUsers)
    (hclosing : n'.closing = n.closing) :
    Live { d with refCount := d.refCount + 1, openCount := d.openCount + 0 } n' closes frees := by
  obtain ⟨leaked, hleaked, href, hopn⟩ := h.counters
  refine ⟨h.ops, ⟨leaked, hleaked, ?_, ?_⟩, ?_, h.frees, by omega⟩
  · show d.refCount + 1 = _
    omega
  · show d.openCount + 0 = _
    omega
  · show closes = if d.openCount + 0 = 0 then 1 else 0
    rw [Int.add_zero]
    exact h.closes

lemma Live.getOpen (hslot : 0 < n.slots) (hslots : n'.slots = n.slots) (hplain : n'.plain = n.plain)
    (hopen : n'.openUsers = n.openUsers + 1) (hclosing : n'.closing = n.closing) :
    Live { d with refCount := d.refCount + 1, openCount := d.openCount + 1 } n' closes frees := by
  have hpos := h.openCount_pos (by omega)
  have hzero := h.closes_eq_zero hpos
  obtain ⟨leaked, hleaked, href, hopn⟩ := h.counters
  refine ⟨h.ops, ⟨leaked, hleaked, ?_, ?_⟩, ?_, h.frees, by omega⟩
  · show d.refCount + 1 = _
    omega
  · show d.openCount + 1 = _
    omega
  · show closes = if d.openCount + 1 = 0 then 1 else 0
    rw [if_neg (by omega)]
    exact hzero

lemma Live.insert (hne : d.openCount ≠ 0)
    (hslots : n'.slots = n.slots + 1) (hplain : n'.plain + 1 = n.plain)
    (hopen : n'.openUsers = n.openUsers) (hclosing : n'.closing = n.closing) :
    Live { d with openCount := d.openCount + 1 } n' closes frees := by
  have hc := h.closes
  rw [if_neg hne] at hc
  obtain ⟨leaked, hleaked, href, hopn⟩ := h.counters
  refine ⟨h.ops, ⟨leaked, hleaked, ?_, ?_⟩, ?_, h.frees, by omega⟩
  · show d.refCount = _
    omega
  · show d.openCount + 1 = _
    omega
  · show closes = if d.openCount + 1 = 0 then 1 else 0
    rw [if_neg (by omega)]
    exact hc

/-! ## References that move or are lost -/

lemma Live.congr (hopens : n'.slots + n'.openUsers + n'.closing = n.slots + n.openUsers + n.closing)
    (hplain : n'.plain = n.plain) : Live d n' closes frees := by
  have hheld := h.held
  obtain ⟨leaked, hleaked, href, hopn⟩ := h.counters
  exact ⟨h.ops, ⟨leaked, hleaked, by omega, by omega⟩, h.closes, h.frees, by omega⟩

lemma Live.share (hslot : 0 < n.slots)
    (hsum : n'.slots + n'.closing = n.slots + n.closing + 1) (hplain : n'.plain = n.plain)
    (hopen : n'.openUsers = n.openUsers) :
    Live { d with refCount := d.refCount + 1, openCount := d.openCount + 1 } n' closes frees := by
  have hmore : Live { d with refCount := d.refCount + 1, openCount := d.openCount + 1 }
      { n with openUsers := n.openUsers + 1 } closes frees := h.getOpen hslot rfl rfl rfl rfl
  exact hmore.congr (by dsimp only; omega) hplain

lemma Live.disconnect : Live { d with disconnected := true } n closes frees := by
  obtain ⟨leaked, -, href, hopn⟩ := h.counters
  exact ⟨h.ops, ⟨leaked, fun _ => rfl, href, hopn⟩, h.closes, h.frees, h.held⟩

lemma Live.leak (hdisc : d.disconnected = true)
    (hslots : n'.slots + 1 = n.slots) (hplain : n'.plain = n.plain)
    (hopen : n'.openUsers = n.openUsers) (hclosing : n'.closing = n.closing)
    (hheld : 0 < n'.slots + n'.plain + n'.openUsers + n'.closing) : Live d n' closes frees := by
  obtain ⟨leaked, -, href, hopn⟩ := h.counters
  exact ⟨h.ops, ⟨leaked + 1, fun _ => hdisc, by omega, by omega⟩, h.closes, h.frees, hheld⟩

/-! ## `close_fd()` and `put_fd()` -/

lemma Live.close (hopens : n'.openUsers + n'.closing + 1 = n.openUsers + n.closing)
    (hslots : n'.slots = n.slots) (hplain : n'.plain = n.plain + 1) :
    Live { d with openCount := d.openCount - 1 } n'
      (if d.openCount = 1 ∧ d.ops then closes + 1 else closes) frees := by
  have hpos := h.openCount_pos (by omega)
  have hzero := h.closes_eq_zero hpos
  obtain ⟨leaked, hleaked, href, hopn⟩ := h.counters
  refine ⟨h.ops, ⟨leaked, hleaked, ?_, ?_⟩, ?_, h.frees, by omega⟩
  · show d.refCount = _
    omega
  · show d.openCount - 1 = _
    omega
  · show _ = if d.openCount - 1 = 0 then 1 else 0
    by_cases hone : d.openCount = 1
    · rw [if_pos ⟨hone, h.ops⟩, if_pos (by omega), hzero]
    · rw [if_neg fun hc => hone hc.1, if_neg (by omega), hzero]

lemma Live.put (hne : d.refCount ≠ 1)
    (hstays : ¬(d.disconnected = true ∧ d.refCount - 1 = d.openCount))
    (hslots : n'.slots = n.slots) (hplain : n'.plain + 1 = n.plain)
    (hopen : n'.openUsers = n.openUsers) (hclosing : n'.closing = n.closing) :
    Live { d with refCount := d.refCount - 1 } n' closes frees := by
  obtain ⟨leaked, hleaked, href, hopn⟩ := h.counters
  refine ⟨h.ops, ⟨leaked, hleaked, ?_, hclosing ▸ hopen ▸ hslots ▸ hopn⟩, h.closes, h.frees, ?_⟩
  · show d.refCount - 1 = _
    omega
  · -- what is left is not only leaked
    by_contra hnone
    have hleak : 0 < leaked := by omega
    exact hstays ⟨hleaked hleak, by omega⟩

lemma Live.free (hone : d.refCount = 1)
    (hslots : n'.slots = n.slots) (hplain : n'.plain + 1 = n.plain)
    (hopen : n'.openUsers = n.openUsers) (hclosing : n'.closing = n.closing)
    (husers : n'.users ≤ n'.plain + n'.openUsers) : Gone n' true closes (frees + 1) := by
  obtain ⟨leaked, -, href, hopn⟩ := h.counters
  have hfrees := h.frees
  have hcloses := h.closes
  rw [if_pos (by omega)] at hcloses
  refine ⟨by omega, by omega, by omega, by omega, by omega, by omega, ?_⟩
  rw [if_pos rfl]
  omega

lemma Live.spend (hne : d.refCount ≠ 1)
    (hsame : d.refCount - 1 = d.openCount) (hplain : n'.plain + 1 = n.plain)
    (hopen : n'.openUsers = 0) (husers : n'.users ≤ n'.plain + n'.openUsers) :
    Spent ⟨-1, -1, true, false⟩ n' (closes + 1) (frees + 1) := by
  obtain ⟨leaked, -, href, hopn⟩ := h.counters
  have hfrees := h.frees
  have hpos : 0 < d.openCount := by omega
  have hzero := h.closes_eq_zero hpos
  have hminus : (-1 : ℤ) < 0 := by decide
  exact ⟨rfl, rfl, hminus, hminus, by omega, by omega, hopen, by omega⟩

end

lemma Spent.close (h : Spent d n closes frees) (hopen : n'.openUsers = 0)
    (husers : n'.users = 0) : Spent { d with openCount := d.openCount - 1 } n'
      (if d.openCount = 1 ∧ d.ops then closes + 1 else closes) frees := by
  have hneg := h.openCount
  rw [if_neg fun hc => by omega]
  refine ⟨h.ops, h.disconnected, h.refCount, ?_, h.closes, h.frees, hopen, husers⟩
  show d.openCount - 1 < 0
  omega

lemma Spent.put (h : Spent d n closes frees) (hopen : n'.openUsers = 0)
    (husers : n'.users = 0) : Spent { d with refCount := d.refCount - 1 } n' closes frees := by
  have hneg := h.refCount
  refine ⟨h.ops, h.disconnected, ?_, h.openCount, h.closes, h.frees, hopen, husers⟩
  show d.refCount - 1 < 0
  omega

lemma Spent.congr (h : Spent d n closes frees) (hopen : n'.openUsers = 0)
    (husers : n'.users = 0) : Spent d n' closes frees :=
  ⟨h.ops, h.disconnected, h.refCount, h.openCount, h.closes, h.frees, hopen, husers⟩

end Haiku.Fd
