import Mathlib.Data.UInt

/-!
# Ephemeral ports

`_BindToEphemeral()` and `_Bind()` of
`src/add-ons/kernel/network/protocols/tcp/EndpointManager.cpp`. The network protocol below agrees to
every address. Ports are in host order.
-/

namespace Haiku.TCP.EndpointManager

/-- `kLastReservedPort` -/
def lastReservedPort : ℕ := 1023

/-- The ports of the endpoints in `fEndpointHash`, and `fLastPort` -/
structure Manager where
  bound : ℕ → Bool
  lastPort : UInt16

def portOf (counter : ℕ) : ℕ :=
  let port := counter % 2 ^ 16
  if port ≤ lastReservedPort then port + lastReservedPort else port

/-- `while (counter < max)`, which finds a port or gives the next `fLastPort`. The step is `mask + 1`. -/
def searchPass (bound : ℕ → Bool) (max mask lastPort counter : ℕ) : Except ℕ ℕ :=
  if counter < max then
    let port := portOf counter
    if !bound port then .error port
    else searchPass bound max mask port (counter + (mask + 1))
  else .ok lastPort
termination_by max - counter

/-- The passes with the given numbers: the port that was found, and `fLastPort`. The time in a pass is
what `system_time()` returns. -/
def searchPasses (bound : ℕ → Bool) (max : ℕ) (time : ℕ → ℕ) : List ℕ → ℕ → Option ℕ × ℕ
  | [], lastPort => (none, lastPort)
  | i :: passes, lastPort =>
    -- try to retrieve a more or less random port
    let mask := if i = 4 then 0 else time i % 32
    match searchPass bound max mask lastPort (lastPort + (mask + 1)) with
    | .error port => (some port, port)
    | .ok lastPort => searchPasses bound max time passes lastPort

/-- `_BindToEphemeral()`: the port, or none for `EADDRINUSE` -/
def Manager.bindToEphemeral (m : Manager) (time : ℕ → ℕ) : Option ℕ × Manager :=
  let found :=
    searchPasses m.bound (m.lastPort.toNat + 65536) time [1, 2, 3, 4] m.lastPort.toNat
  (found.1, {
    bound    := found.1.elim m.bound fun port => Function.update m.bound port true
    lastPort := UInt16.ofNat found.2 })

/-! ## The order of the search -/

def passPorts (max mask counter : ℕ) : List ℕ :=
  if counter < max then portOf counter :: passPorts max mask (counter + (mask + 1)) else []
termination_by max - counter

/-- The ports of some passes, in the order in which they are looked at as long as all are in use -/
def order (max : ℕ) (time : ℕ → ℕ) : List ℕ → ℕ → List ℕ
  | [], _ => []
  | i :: passes, lastPort =>
    let mask := if i = 4 then 0 else time i % 32
    let ports := passPorts max mask (lastPort + (mask + 1))
    ports ++ order max time passes (ports.getLastD lastPort)

def Manager.order (m : Manager) (time : ℕ → ℕ) : List ℕ :=
  EndpointManager.order (m.lastPort.toNat + 65536) time [1, 2, 3, 4] m.lastPort.toNat

section
variable {bound : ℕ → Bool} {max mask lastPort counter port : ℕ} {time : ℕ → ℕ}
  {passes : List ℕ}

lemma portOf_ge (counter : ℕ) : lastReservedPort ≤ portOf counter := by
  unfold portOf
  dsimp only
  split_ifs
  · exact Nat.le_add_left _ _
  · omega

lemma portOf_of_gt (h : lastReservedPort < counter % 2 ^ 16) : portOf counter = counter % 2 ^ 16 :=
  if_neg (Nat.not_le.2 h)

lemma portOf_of_le (h : counter % 2 ^ 16 ≤ lastReservedPort) :
    portOf counter = counter % 2 ^ 16 + lastReservedPort := if_pos h

lemma searchPass_eq : searchPass bound max mask lastPort counter =
    match (passPorts max mask counter).find? fun port => !bound port with
    | some port => .error port
    | none => .ok ((passPorts max mask counter).getLastD lastPort) := by
  induction lastPort, counter using searchPass.induct bound max mask with
  | case1 lastPort counter hlt port hfree =>
    rw [searchPass, passPorts, if_pos hlt, if_pos hlt,
      List.find?_cons_of_pos (p := fun port => !bound port) hfree]
    exact if_pos hfree
  | case2 lastPort counter hlt port hused ih =>
    rw [searchPass, passPorts, if_pos hlt, if_pos hlt,
      List.find?_cons_of_neg (p := fun port => !bound port) hused, List.getLastD_cons]
    exact (if_neg hused).trans ih
  | case3 lastPort counter hge =>
    rw [searchPass, passPorts, if_neg hge, if_neg hge]
    rfl

lemma searchPasses_eq : (searchPasses bound max time passes lastPort).1 =
    (order max time passes lastPort).find? fun port => !bound port := by
  induction passes generalizing lastPort with
  | nil => rfl
  | cons i passes ih =>
    rw [searchPasses, order, List.find?_append, searchPass_eq]
    cases (passPorts max (if i = 4 then 0 else time i % 32)
      (lastPort + ((if i = 4 then 0 else time i % 32) + 1))).find? fun port => !bound port with
    | some port => rfl
    | none => exact ih

lemma mem_passPorts (hmask : mask = 0) (hle : counter ≤ port) (hlt : port < max) :
    portOf port ∈ passPorts max mask counter := by
  induction counter using passPorts.induct max mask with
  | case1 counter hin ih =>
    rw [passPorts, if_pos hin]
    rcases Nat.eq_or_lt_of_le hle with heq | hnext
    · rw [heq]
      exact List.mem_cons_self
    · exact List.mem_cons_of_mem _ (ih (by omega))
  | case2 counter hout => omega

lemma getLastD_passPorts (hlt : counter < max) (hmask : mask < 32) :
    ∃ last, max ≤ last + 32 ∧ last < max ∧
      (passPorts max mask counter).getLastD lastPort = portOf last := by
  induction counter using passPorts.induct max mask generalizing lastPort with
  | case1 counter hin ih =>
    rw [passPorts, if_pos hin, List.getLastD_cons]
    by_cases hnext : counter + (mask + 1) < max
    · exact ih hnext
    · refine ⟨counter, by omega, hin, ?_⟩
      rw [passPorts, if_neg hnext]
      rfl
  | case2 counter hout => exact absurd hlt hout

/-- After a pass, the search goes on from a port that stands in front of where it began. -/
def Before (lastPort port : ℕ) : Prop := ∃ low, low < lastPort ∧ port = portOf low

lemma Before.pass (h : Before lastPort port ∨ port = lastPort) (h32 : 32 ≤ lastPort)
    (hlt : lastPort < 65536) (hmask : mask < 32) :
    Before lastPort ((passPorts (lastPort + 65536) mask (port + (mask + 1))).getLastD port) := by
  have hnext : port + (mask + 1) < lastPort + 65536 := by
    rcases h with ⟨low, hlow, rfl⟩ | rfl
    · unfold portOf lastReservedPort
      dsimp only
      split_ifs <;> omega
    · omega
  obtain ⟨last, hge, hle, heq⟩ := @getLastD_passPorts _ _ port _ hnext hmask
  refine ⟨last - 65536, by omega, heq.trans ?_⟩
  have hmod : last % 2 ^ 16 = (last - 65536) % 2 ^ 16 := by omega
  unfold portOf
  rw [hmod]

lemma Before.mem_passPorts (h : Before lastPort port) (hlt : lastPort < 65536) {p : ℕ}
    (hp : lastReservedPort < p) (hp' : p < 65536) :
    p ∈ passPorts (lastPort + 65536) 0 (port + (0 + 1)) := by
  obtain ⟨low, hlow, rfl⟩ := h
  have hreserved : lastReservedPort = 1023 := rfl
  -- the counter that stands for the port
  obtain ⟨counter, hcounter, hge, hmax⟩ : ∃ counter, portOf counter = p ∧
      portOf low + 1 ≤ counter ∧ counter < lastPort + 65536 := by
    by_cases hbehind : portOf low < p
    · have hmod : p % 2 ^ 16 = p := Nat.mod_eq_of_lt hp'
      exact ⟨p, (portOf_of_gt (by omega)).trans hmod, by omega, by omega⟩
    · have hlow' : low % 2 ^ 16 = low := Nat.mod_eq_of_lt (by omega)
      by_cases hsmall : low ≤ lastReservedPort
      · have hfold := portOf_of_le (hlow'.trans_le hsmall)
        have hmod : (65536 + (p - lastReservedPort)) % 2 ^ 16 = p - lastReservedPort := by omega
        refine ⟨65536 + (p - lastReservedPort), ?_, by omega, by omega⟩
        rw [portOf_of_le (by omega), hmod]
        omega
      · have hsame : portOf low = low % 2 ^ 16 := portOf_of_gt (by omega)
        have hmod : (65536 + p) % 2 ^ 16 = p := by omega
        exact ⟨65536 + p, (portOf_of_gt (by omega)).trans hmod, by omega, by omega⟩
  rw [← hcounter]
  exact EndpointManager.mem_passPorts rfl hge hmax

lemma mask_lt (i : ℕ) (time : ℕ → ℕ) : (if i = 4 then 0 else time i % 32) < 32 := by
  split_ifs
  · decide
  · exact Nat.mod_lt _ (by decide)

lemma mem_order {m : Manager} (h32 : 32 ≤ m.lastPort.toNat) (hp : lastReservedPort < port)
    (hlt : port < 65536) : port ∈ m.order time := by
  have hlast := m.lastPort.toNat_lt
  have h1 := Before.pass (.inr rfl) h32 hlast (mask_lt 1 time)
  have h2 := Before.pass (.inl h1) h32 hlast (mask_lt 2 time)
  have h3 := Before.pass (.inl h2) h32 hlast (mask_lt 3 time)
  have h4 := h3.mem_passPorts hlast hp hlt
  unfold Manager.order
  simp only [order, List.mem_append]
  exact .inr (.inr (.inr (.inl h4)))

end

/-! ## The right ports -/

/-- A free port that is not reserved is bound, or there is none. -/
def Right (m : Manager) (time : ℕ → ℕ) : Prop :=
  (∀ port, (m.bindToEphemeral time).1 = some port → m.bound port = false ∧
    lastReservedPort < port ∧
      (m.bindToEphemeral time).2.bound = Function.update m.bound port true) ∧
  ((m.bindToEphemeral time).1 = none →
    ∀ port, lastReservedPort < port → port < 65536 → m.bound port = true)

/-- The last reserved port is in use, or a free port comes before it in the search. -/
def AvoidsReserved (m : Manager) (time : ℕ → ℕ) : Prop :=
  m.bound lastReservedPort = true ∨ ∀ before after,
    m.order time = before ++ lastReservedPort :: after → ∃ port ∈ before, m.bound port = false

/-- When all ports of the search are in use, all ports are. -/
def MeetsAll (m : Manager) (time : ℕ → ℕ) : Prop :=
  (∀ port ∈ m.order time, m.bound port = true) →
    ∀ port, lastReservedPort < port → port < 65536 → m.bound port = true

lemma bindToEphemeral_eq (m : Manager) (time : ℕ → ℕ) : ∃ found : Option ℕ × ℕ,
    found.1 = ((m.order time).find? fun port => !m.bound port) ∧ m.bindToEphemeral time =
      (found.1, ⟨found.1.elim m.bound fun port => Function.update m.bound port true,
        UInt16.ofNat found.2⟩) := by
  obtain ⟨found, hfound⟩ : ∃ found, searchPasses m.bound (m.lastPort.toNat + 65536) time
      [1, 2, 3, 4] m.lastPort.toNat = found := ⟨_, rfl⟩
  refine ⟨found, ?_, ?_⟩
  · rw [← hfound, searchPasses_eq, Manager.order]
  · rw [Manager.bindToEphemeral, hfound]

lemma order_ge {max lastPort port : ℕ} {time : ℕ → ℕ} {passes : List ℕ}
    (h : port ∈ order max time passes lastPort) : lastReservedPort ≤ port := by
  induction passes generalizing lastPort with
  | nil => cases h
  | cons i passes ih =>
    rw [order] at h
    rcases List.mem_append.1 h with h | h
    · generalize lastPort + ((if i = 4 then 0 else time i % 32) + 1) = counter at h
      induction counter using passPorts.induct max (if i = 4 then 0 else time i % 32) with
      | case1 counter hin ih =>
        rw [passPorts, if_pos hin] at h
        rcases List.mem_cons.1 h with rfl | h
        · exact portOf_ge counter
        · exact ih h
      | case2 counter hout =>
        rw [passPorts, if_neg hout] at h
        cases h
    · exact ih h

/-- The search binds the right port exactly when it does not come to a free port 1023 first, and
meets a free port if there is one. It does meet one from every `fLastPort` of at least 32. -/
theorem ephemeral_right_iff (m : Manager) (time : ℕ → ℕ) :
    (Right m time ↔ AvoidsReserved m time ∧ MeetsAll m time) ∧
      (32 ≤ m.lastPort.toNat → MeetsAll m time) := by
  refine ⟨?_, fun h32 hall port hp hlt => hall port (mem_order h32 hp hlt)⟩
  obtain ⟨⟨found, last⟩, hfind, hbind⟩ := bindToEphemeral_eq m time
  unfold Right
  rw [hbind]
  cases found with
  | none =>
    have hused : ∀ port ∈ m.order time, m.bound port = true := by
      simpa using hfind.symm
    dsimp only
    constructor
    · rintro ⟨_, hall⟩
      refine ⟨?_, fun _ => hall rfl⟩
      by_cases hres : m.bound lastReservedPort = true
      · exact .inl hres
      · exact .inr fun before after heq => absurd (hused _ (heq ▸ by simp)) hres
    · exact fun ⟨_, hmeets⟩ => ⟨nofun, fun _ => hmeets hused⟩
  | some port =>
    obtain ⟨hfree, before, after, heq, hbefore⟩ := List.find?_eq_some_iff_append.1 hfind.symm
    have hfree' : m.bound port = false := by simpa using hfree
    have hmem : port ∈ m.order time := List.mem_of_find?_eq_some hfind.symm
    dsimp only
    constructor
    · rintro ⟨hport, _⟩
      obtain ⟨_, hgt, _⟩ := hport port rfl
      refine ⟨?_, fun hall => absurd (hall port hmem) (by rw [hfree']; decide)⟩
      by_cases hres : m.bound lastReservedPort = true
      · exact .inl hres
      · refine .inr fun before' after' heq' => ?_
        by_contra hno
        have hreserved : (m.order time).find? (fun port => !m.bound port) = some lastReservedPort := by
          refine List.find?_eq_some_iff_append.2 ⟨by simpa using hres, before', after', heq', ?_⟩
          intro p hp
          by_contra hp'
          exact hno ⟨p, hp, by simpa using hp'⟩
        cases hfind.trans hreserved
        exact absurd hgt (lt_irrefl _)
    · rintro ⟨havoid, _⟩
      refine ⟨?_, nofun⟩
      rintro _ ⟨⟩
      refine ⟨hfree', lt_of_le_of_ne (order_ge hmem) ?_, rfl⟩
      rintro rfl
      rcases havoid with hres | havoid
      · rw [hres] at hfree'
        cases hfree'
      · obtain ⟨p, hp, hpfree⟩ := havoid before after heq
        have hused := hbefore p hp
        rw [hpfree] at hused
        exact absurd hused (by decide)

/-- All ports are free, and `fLastPort` is the last one: the first counter stands for port 0. -/
theorem not_ephemeral_right : ¬∀ (m : Manager) (time : ℕ → ℕ), Right m time := by
  intro hall
  have hright := hall ⟨fun _ => false, 65535⟩ (fun _ => 0)
  obtain ⟨⟨found, last⟩, hfind, hbind⟩ :=
    bindToEphemeral_eq ⟨fun _ => false, 65535⟩ fun _ => 0
  have hport : found = some 1023 := by
    refine hfind.trans ?_
    rw [Manager.order, order]
    dsimp only
    rw [passPorts, if_pos (by decide)]
    rfl
  unfold Right at hright
  rw [hbind, hport] at hright
  exact absurd (hright.1 1023 rfl).2.1 (lt_irrefl 1023)

end Haiku.TCP.EndpointManager
