import VeloxHash.TransitionSystem
import Mathlib.Tactic

/-! `RxMsr` over the model specific registers of all CPUs, as `Msr` reaches them on Linux. Which
accesses the machine lets through is a parameter. -/

namespace VeloxHash.RxMsr

open TransitionSystem

def kNoMask : UInt64 := 0xFFFFFFFFFFFFFFFF

structure MsrItem where
  reg : UInt32 := 0
  value : UInt64 := 0
  mask : UInt64 := kNoMask
  deriving DecidableEq

namespace MsrItem

def isValid (item : MsrItem) : Bool := 0 < item.reg

def maskedValue (oldValue newValue mask : UInt64) : UInt64 :=
  newValue &&& mask ||| oldValue &&& ~~~mask

end MsrItem

/-- `front` and `rest` are the units of `Cpu::info()`. -/
structure Machine where
  front : Nat
  rest : List Nat
  hasCatL3 : Bool
  /-- Whether the machine lets an access through, the accesses counted from the start. -/
  answers : Nat → Bool

def Machine.units (m : Machine) : List Nat := m.front :: m.rest

/-- Of a CPU and the number of a register. -/
abbrev Registers := Nat → UInt32 → UInt64

structure Hardware where
  regs : Registers
  accesses : Nat := 0

/-- What writes registers and may fail on the way. -/
abbrev Write := Hardware → Bool × Hardware

namespace Write

def skip : Write := fun h => (true, h)

def andThen (f g : Write) : Write := fun h =>
  match f h with
  | (true, h) => g h
  | (false, h) => (false, h)

def orElse (f g : Write) : Write := fun h =>
  match f h with
  | (true, h) => (true, h)
  | (false, h) => g h

/-- A loop that returns false at the first write that fails. -/
def all {α : Type} (f : α → Write) : List α → Write
  | [] => skip
  | a :: as => (f a).andThen (all f as)

end Write

structure RxConfig where
  msrPreset : List MsrItem
  cacheQoS : Bool
  rdmsr : Bool

/-- The ghosts `before` and `after` are the registers around the last `init` that was not
returned from at once, and `restored` says whether the last `destroy` made all its writes. -/
structure State where
  hardware : Hardware
  items : List MsrItem := []
  cacheQoS : Bool := false
  enabled : Bool := false
  initialized : Bool := false
  before : Registers
  after : Registers
  restored : Bool := false

section Source

variable (m : Machine)

namespace Hardware

variable (h : Hardware)

def next : Hardware := { h with accesses := h.accesses + 1 }

/-- `Msr::rdmsr`. -/
def rdmsr (reg : UInt32) (cpu : Nat) : Option UInt64 × Hardware :=
  (if m.answers h.accesses then some (h.regs cpu reg) else none, h.next)

/-- `Msr::wrmsr`. -/
def wrmsr (reg : UInt32) (value : UInt64) (cpu : Nat) : Bool × Hardware :=
  if m.answers h.accesses then
    (true, { h.next with
      regs := Function.update h.regs cpu (Function.update (h.regs cpu) reg value) })
  else (false, h.next)

/-- `Msr::read` on the first CPU. -/
def read (reg : UInt32) : MsrItem × Hardware :=
  match h.rdmsr m reg m.front with
  | (some value, h) => ({ reg, value }, h)
  | (none, h) => ({}, h)

end Hardware

/-- `Msr::write`. -/
def write (reg : UInt32) (value : UInt64) (cpu : Nat) (mask : UInt64) : Write := fun h =>
  if mask = kNoMask then h.wrmsr m reg value cpu
  else match h.rdmsr m reg cpu with
    | (some old, h) => h.wrmsr m reg (MsrItem.maskedValue old value mask) cpu
    | (none, h) => h.wrmsr m reg value cpu

def writeItem (cpu : Nat) (item : MsrItem) : Write := write m item.reg item.value cpu item.mask

/-- The registers read into `items`, which a register that cannot be read clears. -/
def save : List MsrItem → List MsrItem → Hardware → Option (List MsrItem) × Hardware
  | [], items, h => (some items, h)
  | i :: preset, items, h =>
    match h.read m i.reg with
    | (item, h) => if item.isValid then save preset (items ++ [item]) h else (none, h)

/-- The CPUs of the mining threads, unless the affinity of one is missing or wrong. -/
def cacheEnabled : List Int64 → Option (List Nat)
  | [] => some []
  | thread :: threads =>
    let affinity := thread.toInt32
    if affinity < 0 ∨ affinity.toInt.toNat ∉ m.units then none
    else (cacheEnabled threads).map (affinity.toInt.toNat :: ·)

/-- Which CPUs keep the full L3 cache. -/
def hasCache (threads : List Int64) (cpu : Nat) : Bool :=
  match cacheEnabled m threads with
  | none => true
  | some cpus => threads.isEmpty || cpus.contains cpu

/-- The registers of the cache QoS on one CPU. -/
def assignClass (threads : List Int64) (cpu : Nat) : Write :=
  if hasCache m threads cpu then write m 0xC8F 0 cpu kNoMask
  else ((write m 0xC91 0 cpu kNoMask).orElse (write m 0xC91 1 cpu kNoMask)).andThen
    (write m 0xC8F 0x100000000 cpu kNoMask)

/-- The callback of `wrmsr`. -/
def writeCpu (preset : List MsrItem) (threads : List Int64) (cacheQoS : Bool) (cpu : Nat) :
    Write :=
  (Write.all (writeItem m cpu) preset).andThen
    (if cacheQoS then assignClass m threads cpu else .skip)

def wrmsr (preset : List MsrItem) (threads : List Int64) (cacheQoS rdmsr : Bool) (s : State) :
    Bool × State :=
  let hardware := s.hardware.next
  if m.answers s.hardware.accesses then
    match if rdmsr then save m preset s.items hardware else (some s.items, hardware) with
    | (none, hardware) => (false, { s with hardware, items := [] })
    | (some items, hardware) =>
      let (result, hardware) := Write.all (writeCpu m preset threads cacheQoS) m.units hardware
      (result, { s with hardware, items })
  else (false, { s with hardware })

def init (config : RxConfig) (threads : List Int64) (s : State) : State :=
  if s.initialized then s
  else
    let s := { s with
      initialized := true
      enabled := false
      before := s.hardware.regs
      after := s.hardware.regs }
    if config.msrPreset.isEmpty then s
    else
      let cacheQoS := config.cacheQoS && m.hasCatL3
      let (enabled, s) := wrmsr m config.msrPreset threads cacheQoS config.rdmsr { s with cacheQoS }
      { s with enabled, after := s.hardware.regs }

def destroy (s : State) : State :=
  if s.initialized then
    let s := { s with initialized := false, enabled := false }
    if s.items.isEmpty then { s with restored := true }
    else
      let (restored, s) := wrmsr m s.items [] s.cacheQoS false s
      { s with restored }
  else { s with restored := false }

end Source

inductive Call
  | init (config : RxConfig) (threads : List Int64)
  | destroy

def step (m : Machine) (s : State) : Call → Option State
  | .init config threads => some (init m config threads s)
  | .destroy => some (destroy m s)

def start (regs : Registers) : State where
  hardware := { regs }
  before := regs
  after := regs

section Frame

variable {m : Machine} {h h' : Hardware} {P Q : Nat → UInt32 → Prop} {f g : Write}

/-- Whether it fails or not, nothing but the registers of `P` is written. -/
def Touches (P : Nat → UInt32 → Prop) (f : Write) : Prop :=
  ∀ h cpu reg, ¬P cpu reg → (f h).2.regs cpu reg = h.regs cpu reg

theorem Touches.mono (hf : Touches P f) (hle : ∀ cpu reg, P cpu reg → Q cpu reg) : Touches Q f :=
  fun h cpu reg hnot => hf h cpu reg fun hP => hnot (hle cpu reg hP)

theorem touches_skip (P : Nat → UInt32 → Prop) : Touches P .skip := fun _ _ _ _ => rfl

theorem Touches.andThen (hf : Touches P f) (hg : Touches P g) : Touches P (f.andThen g) := by
  intro h cpu reg hnot
  have hfirst := hf h cpu reg hnot
  unfold Write.andThen
  match hrun : f h with
  | (true, mid) =>
    rw [hrun] at hfirst
    exact (hg mid cpu reg hnot).trans hfirst
  | (false, mid) =>
    rw [hrun] at hfirst
    exact hfirst

theorem Touches.orElse (hf : Touches P f) (hg : Touches P g) : Touches P (f.orElse g) := by
  intro h cpu reg hnot
  have hfirst := hf h cpu reg hnot
  unfold Write.orElse
  match hrun : f h with
  | (true, mid) =>
    rw [hrun] at hfirst
    exact hfirst
  | (false, mid) =>
    rw [hrun] at hfirst
    exact (hg mid cpu reg hnot).trans hfirst

theorem touches_all {α : Type} {f : α → Write} {as : List α} (h : ∀ a ∈ as, Touches P (f a)) :
    Touches P (Write.all f as) := by
  induction as with
  | nil => exact touches_skip P
  | cons a as ih =>
    exact (h a List.mem_cons_self).andThen (ih fun b hb => h b (List.mem_cons_of_mem a hb))

theorem touches_wrmsr (m : Machine) (reg : UInt32) (value : UInt64) (cpu : Nat) :
    Touches (fun c r => c = cpu ∧ r = reg) fun h => h.wrmsr m reg value cpu := by
  intro h c r hnot
  dsimp only
  unfold Hardware.wrmsr
  split
  · by_cases hc : c = cpu
    · subst hc
      change Function.update h.regs c (Function.update (h.regs c) reg value) c r = _
      rw [Function.update_self, Function.update_of_ne fun hr => hnot ⟨rfl, hr⟩]
    · change Function.update h.regs cpu _ c r = _
      rw [Function.update_of_ne hc]
  · rfl

theorem touches_write (m : Machine) (reg : UInt32) (value : UInt64) (cpu : Nat) (mask : UInt64) :
    Touches (fun c r => c = cpu ∧ r = reg) (write m reg value cpu mask) := by
  intro h c r hnot
  unfold write
  split
  · exact touches_wrmsr m reg value cpu h c r hnot
  · unfold Hardware.rdmsr
    split
    · next heq =>
      obtain ⟨-, rfl⟩ := Prod.mk.inj heq
      exact touches_wrmsr m reg _ cpu h.next c r hnot
    · next heq =>
      obtain ⟨-, rfl⟩ := Prod.mk.inj heq
      exact touches_wrmsr m reg value cpu h.next c r hnot

/-- The registers that `init` and `destroy` write. -/
def Written (m : Machine) (preset : List MsrItem) (threads : List Int64) (cacheQoS : Bool)
    (cpu : Nat) (reg : UInt32) : Prop :=
  (∃ i ∈ preset, i.reg = reg) ∨
    cacheQoS = true ∧ (reg = 0xC8F ∨ reg = 0xC91 ∧ hasCache m threads cpu = false)

theorem touches_writeCpu (m : Machine) (preset : List MsrItem) (threads : List Int64)
    (cacheQoS : Bool) (cpu : Nat) :
    Touches (fun c r => c = cpu ∧ Written m preset threads cacheQoS c r)
      (writeCpu m preset threads cacheQoS cpu) := by
  refine Touches.andThen (touches_all fun i hi => ?_) ?_
  · refine (touches_write m i.reg i.value cpu i.mask).mono fun c r hwrite => ?_
    exact ⟨hwrite.1, .inl ⟨i, hi, hwrite.2.symm⟩⟩
  · cases cacheQoS with
    | false => exact touches_skip _
    | true =>
      have hclass {value : UInt64} : Touches (fun c r => c = cpu ∧ Written m preset threads true c r)
          (write m 0xC8F value cpu kNoMask) :=
        (touches_write m 0xC8F value cpu kNoMask).mono fun c r hwrite =>
          ⟨hwrite.1, .inr ⟨rfl, .inl hwrite.2⟩⟩
      change Touches _ (assignClass m threads cpu)
      unfold assignClass
      split
      · exact hclass
      · next hnone =>
        have hcache {value : UInt64} :
            Touches (fun c r => c = cpu ∧ Written m preset threads true c r)
              (write m 0xC91 value cpu kNoMask) :=
          (touches_write m 0xC91 value cpu kNoMask).mono fun c r hwrite =>
            ⟨hwrite.1, .inr ⟨rfl, .inr ⟨hwrite.2, by
              rw [hwrite.1]
              exact Bool.eq_false_of_not_eq_true hnone⟩⟩⟩
        exact (hcache.orElse hcache).andThen hclass

theorem touches_units (m : Machine) (preset : List MsrItem) (threads : List Int64)
    (cacheQoS : Bool) (units : List Nat) :
    Touches (fun c r => c ∈ units ∧ Written m preset threads cacheQoS c r)
      (Write.all (writeCpu m preset threads cacheQoS) units) :=
  touches_all fun cpu hcpu => (touches_writeCpu m preset threads cacheQoS cpu).mono
    fun _ _ hwrite => ⟨hwrite.1 ▸ hcpu, hwrite.2⟩

end Frame

section Success

variable {m : Machine} {h h' : Hardware} {f g : Write} {cpu : Nat} {reg : UInt32} {v : UInt64}

theorem andThen_eq_true (hok : f.andThen g h = (true, h')) :
    ∃ mid, f h = (true, mid) ∧ g mid = (true, h') := by
  unfold Write.andThen at hok
  match hrun : f h with
  | (true, mid) =>
    rw [hrun] at hok
    exact ⟨mid, rfl, hok⟩
  | (false, mid) =>
    rw [hrun] at hok
    exact nomatch hok

theorem all_append {α : Type} (f : α → Write) (as bs : List α) :
    Write.all f (as ++ bs) = (Write.all f as).andThen (Write.all f bs) := by
  induction as with
  | nil => rfl
  | cons a as ih =>
    funext h
    change (f a).andThen (Write.all f (as ++ bs)) h = _
    rw [ih]
    change _ = ((f a).andThen (Write.all f as)).andThen (Write.all f bs) h
    unfold Write.andThen
    match f a h with
    | (true, mid) => rfl
    | (false, mid) => rfl

theorem write_eq_true (hok : write m reg v cpu kNoMask h = (true, h')) : h'.regs cpu reg = v := by
  unfold write Hardware.wrmsr at hok
  rw [if_pos rfl] at hok
  split at hok
  · obtain ⟨-, rfl⟩ := Prod.mk.inj hok
    change Function.update h.regs cpu (Function.update (h.regs cpu) reg v) cpu reg = v
    rw [Function.update_self, Function.update_self]
  · exact nomatch hok

/-- Items that agree on a register leave their value there. -/
theorem writeItems_eq_true {items : List MsrItem}
    (hitems : ∀ i ∈ items, i.reg = reg → i.value = v ∧ i.mask = kNoMask)
    (hsome : h.regs cpu reg = v ∨ ∃ i ∈ items, i.reg = reg)
    (hok : Write.all (writeItem m cpu) items h = (true, h')) : h'.regs cpu reg = v := by
  induction items generalizing h with
  | nil =>
    obtain ⟨-, rfl⟩ := Prod.mk.inj hok
    exact hsome.resolve_right fun ⟨i, hi, _⟩ => nomatch hi
  | cons i items ih =>
    obtain ⟨mid, hfirst, hrest⟩ := andThen_eq_true hok
    refine ih (fun j hj => hitems j (List.mem_cons_of_mem i hj)) ?_ hrest
    by_cases hreg : i.reg = reg
    · obtain ⟨hvalue, hmask⟩ := hitems i List.mem_cons_self hreg
      unfold writeItem at hfirst
      rw [hmask, hreg, hvalue] at hfirst
      exact .inl (write_eq_true hfirst)
    · have hsame := touches_write m i.reg i.value cpu i.mask h cpu reg fun hwrite =>
        hreg hwrite.2.symm
      have hmid : mid.regs cpu reg = h.regs cpu reg := by
        rw [← hsame]
        exact congrArg (fun r => r.2.regs cpu reg) hfirst.symm
      rcases hsome with hbefore | ⟨j, hj, hjreg⟩
      · exact .inl (hmid.trans hbefore)
      · rcases List.mem_cons.mp hj with rfl | hj
        · exact absurd hjreg hreg
        · exact .inr ⟨j, hj, hjreg⟩

theorem hasCache_nil (m : Machine) (cpu : Nat) : hasCache m [] cpu = true := rfl

/-- `destroy` leaves the value that was saved last in a register other than that of the classes. -/
theorem writeCpu_saved {earlier saved : List MsrItem} {cacheQoS : Bool}
    (hsaved : ∀ i ∈ saved, i.reg = reg → i.value = v ∧ i.mask = kNoMask)
    (hsome : ∃ i ∈ saved, i.reg = reg) (hclass : cacheQoS = true → reg ≠ 0xC8F)
    (hok : writeCpu m (earlier ++ saved) [] cacheQoS cpu h = (true, h')) :
    h'.regs cpu reg = v := by
  obtain ⟨mid, hitems, hqos⟩ := andThen_eq_true hok
  rw [all_append] at hitems
  obtain ⟨start, -, hlast⟩ := andThen_eq_true hitems
  have hmid : mid.regs cpu reg = v := writeItems_eq_true hsaved (.inr hsome) hlast
  cases cacheQoS with
  | false =>
    obtain ⟨-, rfl⟩ := Prod.mk.inj hqos
    exact hmid
  | true =>
    change assignClass m [] cpu mid = _ at hqos
    unfold assignClass at hqos
    rw [hasCache_nil, if_pos rfl] at hqos
    have hsame := touches_write m 0xC8F 0 cpu kNoMask mid cpu reg fun hwrite =>
      hclass rfl hwrite.2
    rw [hqos] at hsame
    exact hsame.trans hmid

/-- `destroy` gives every CPU class of service 0. -/
theorem writeCpu_class {items : List MsrItem}
    (hok : writeCpu m items [] true cpu h = (true, h')) : h'.regs cpu 0xC8F = 0 := by
  obtain ⟨mid, -, hqos⟩ := andThen_eq_true hok
  change assignClass m [] cpu mid = _ at hqos
  unfold assignClass at hqos
  rw [hasCache_nil, if_pos rfl] at hqos
  exact write_eq_true hqos

/-- What the callback leaves on its CPU is left on all of them. -/
theorem units_eq_true {items : List MsrItem} {cacheQoS : Bool} {units : List Nat}
    (hone : ∀ cpu h h', writeCpu m items [] cacheQoS cpu h = (true, h') → h'.regs cpu reg = v)
    (hok : Write.all (writeCpu m items [] cacheQoS) units h = (true, h')) :
    ∀ cpu ∈ units, h'.regs cpu reg = v := by
  induction units generalizing h with
  | nil => exact nofun
  | cons unit units ih =>
    obtain ⟨mid, hfirst, hrest⟩ := andThen_eq_true hok
    intro cpu hcpu
    by_cases hlater : cpu ∈ units
    · exact ih hrest cpu hlater
    · obtain rfl := (List.mem_cons.mp hcpu).resolve_right hlater
      have hsame := touches_units m items [] cacheQoS units mid cpu reg fun hwrite =>
        hlater hwrite.1
      rw [hrest] at hsame
      exact hsame.trans (hone cpu h mid hfirst)

theorem read_eq {item : MsrItem} (hread : h.read m reg = (item, h')) :
    h'.regs = h.regs ∧ (item.isValid = true → item = { reg, value := h.regs m.front reg }) := by
  unfold Hardware.read Hardware.rdmsr at hread
  split at hread
  · next heq =>
    obtain ⟨hvalue, rfl⟩ := Prod.mk.inj heq
    obtain ⟨rfl, rfl⟩ := Prod.mk.inj hread
    obtain ⟨-, hvalue⟩ := Option.ite_none_right_eq_some.mp hvalue
    exact ⟨rfl, fun _ => by rw [Option.some.inj hvalue]⟩
  · next heq =>
    obtain ⟨-, rfl⟩ := Prod.mk.inj heq
    obtain ⟨rfl, rfl⟩ := Prod.mk.inj hread
    exact ⟨rfl, fun hvalid => absurd hvalid (by decide)⟩

/-- What is saved comes from the first CPU. -/
theorem save_eq {preset items : List MsrItem} {result : Option (List MsrItem)}
    (hsave : save m preset items h = (result, h')) : h'.regs = h.regs ∧
      ∀ items' ∈ result, items' = items ++
        preset.map fun i => { reg := i.reg, value := h.regs m.front i.reg } := by
  induction preset generalizing items h with
  | nil =>
    obtain ⟨rfl, rfl⟩ := Prod.mk.inj hsave
    refine ⟨rfl, fun items' heq => ?_⟩
    rw [Option.mem_some_iff.mp heq, List.map_nil, List.append_nil]
  | cons i preset ih =>
    unfold save at hsave
    match hread : h.read m i.reg with
    | (item, mid) =>
      rw [hread] at hsave
      dsimp only at hsave
      obtain ⟨hregs, hitem⟩ := read_eq hread
      split at hsave
      · next hvalid =>
        obtain ⟨hrest, hitems⟩ := ih hsave
        refine ⟨hrest.trans hregs, fun items' heq => ?_⟩
        rw [hitems items' heq, hitem hvalid, hregs, List.append_assoc]
        rfl
      · obtain ⟨rfl, rfl⟩ := Prod.mk.inj hsave
        exact ⟨hregs, nofun⟩

end Success

section Run

variable {m : Machine} {s s' : State} {config : RxConfig} {threads : List Int64} {reg : UInt32}

/-- The registers are saved, all CPUs agree on them, and the cache QoS changes no other: class 0
is the one that all CPUs have anyway, and no CPU is given class 1 unless the preset has its
register. -/
structure Restorable (m : Machine) (s : State) (config : RxConfig) (threads : List Int64) :
    Prop where
  rdmsr : config.rdmsr = true
  uniform : ∀ i ∈ config.msrPreset, ∀ cpu ∈ m.units,
    s.hardware.regs cpu i.reg = s.hardware.regs m.front i.reg
  qos : config.cacheQoS = true → m.hasCatL3 = true →
    (∀ cpu ∈ m.units, s.hardware.regs cpu 0xC8F = 0) ∧
      ((∃ i ∈ config.msrPreset, i.reg = 0xC91) ∨ ∀ cpu ∈ m.units, hasCache m threads cpu = true)

/-- Each `init` that comes to its preset finds registers that can be restored. -/
def Kept (m : Machine) (s : State) : Call → Prop
  | .init config threads =>
    s.initialized = false → config.msrPreset ≠ [] → Restorable m s config threads
  | .destroy => True

/-- Every register that the last `init` changed on some CPU has the value it had before. -/
def Restored (s : State) : Prop :=
  ∀ reg, (∃ cpu, s.after cpu reg ≠ s.before cpu reg) →
    ∀ cpu, s.hardware.regs cpu reg = s.before cpu reg

/-- The value that all CPUs had is the one that was saved last. -/
def Saved (m : Machine) (s : State) (reg : UInt32) : Prop :=
  ∃ earlier saved v, s.items = earlier ++ saved ∧ (∃ i ∈ saved, i.reg = reg) ∧
    (∀ i ∈ saved, i.reg = reg → i.value = v ∧ i.mask = kNoMask) ∧
      ∀ cpu ∈ m.units, s.before cpu reg = v

/-- What holds between an `init` and the next `destroy`. -/
structure Inv (m : Machine) (s : State) : Prop where
  regs : s.hardware.regs = s.after
  units : ∀ cpu reg, s.after cpu reg ≠ s.before cpu reg → cpu ∈ m.units
  covered : ∀ reg, (∃ cpu, s.after cpu reg ≠ s.before cpu reg) → s.items ≠ [] ∧
    (s.cacheQoS = true → ∀ cpu ∈ m.units, s.before cpu 0xC8F = 0) ∧
      (Saved m s reg ∨ s.cacheQoS = true ∧ reg = 0xC8F)

/-- Nothing was written, or the registers are saved. -/
theorem wrmsr_saved {preset : List MsrItem} {cacheQoS ok : Bool}
    (hrun : wrmsr m preset threads cacheQoS true s = (ok, s')) :
    s' = { s with hardware := s'.hardware, items := s'.items } ∧
      (s'.hardware.regs = s.hardware.regs ∨
        (s'.items = s.items ++ preset.map fun i =>
            { reg := i.reg, value := s.hardware.regs m.front i.reg }) ∧
          ∀ cpu reg, s'.hardware.regs cpu reg ≠ s.hardware.regs cpu reg →
            cpu ∈ m.units ∧ Written m preset threads cacheQoS cpu reg) := by
  unfold wrmsr at hrun
  dsimp only at hrun
  split at hrun
  · rw [if_pos rfl] at hrun
    match hsave : save m preset s.items s.hardware.next with
    | (none, h) =>
      rw [hsave] at hrun
      obtain ⟨-, rfl⟩ := Prod.mk.inj hrun
      exact ⟨rfl, .inl (save_eq hsave).1⟩
    | (some items, h) =>
      rw [hsave] at hrun
      obtain ⟨-, rfl⟩ := Prod.mk.inj hrun
      obtain ⟨hregs, hitems⟩ := save_eq hsave
      refine ⟨rfl, .inr ⟨hitems items rfl, fun cpu reg hne => ?_⟩⟩
      by_contra hnot
      have hsame := touches_units m preset threads cacheQoS m.units h cpu reg hnot
      rw [hregs] at hsame
      exact hne hsame
  · obtain ⟨-, rfl⟩ := Prod.mk.inj hrun
    exact ⟨rfl, .inl rfl⟩

theorem saved_of_preset {preset earlier : List MsrItem} {regs : Registers}
    (hitems : s.items = earlier ++ preset.map fun i => { reg := i.reg, value := regs m.front i.reg })
    (hbefore : s.before = regs)
    (huniform : ∀ i ∈ preset, ∀ cpu ∈ m.units, regs cpu i.reg = regs m.front i.reg)
    (hreg : ∃ i ∈ preset, i.reg = reg) : Saved m s reg := by
  obtain ⟨i, hi, rfl⟩ := hreg
  refine ⟨earlier, _, regs m.front i.reg, hitems, ⟨_, List.mem_map_of_mem hi, rfl⟩, ?_, ?_⟩
  · intro j hj hreg
    obtain ⟨k, -, rfl⟩ := List.mem_map.mp hj
    exact ⟨congrArg (regs m.front) hreg, rfl⟩
  · intro cpu hcpu
    rw [hbefore]
    exact huniform i hi cpu hcpu

theorem inv_init (hkept : Kept m s (.init config threads)) (hnot : s.initialized = false) :
    Inv m (init m config threads s) := by
  unfold init
  rw [if_neg (ne_true_of_eq_false hnot)]
  dsimp only
  split
  · exact ⟨rfl, fun cpu reg hne => absurd rfl hne, fun reg ⟨cpu, hne⟩ => absurd rfl hne⟩
  · next hsome =>
    have hpreset : config.msrPreset ≠ [] := fun h => hsome (List.isEmpty_iff.mpr h)
    have hable := hkept hnot hpreset
    rw [hable.rdmsr]
    match hrun : wrmsr m config.msrPreset threads (config.cacheQoS && m.hasCatL3) true { s with
      initialized := true
      enabled := false
      before := s.hardware.regs
      after := s.hardware.regs
      cacheQoS := config.cacheQoS && m.hasCatL3 } with
    | (ok, s') =>
      obtain ⟨hs', hregs⟩ := wrmsr_saved hrun
      have hbefore : s'.before = s.hardware.regs := by rw [hs']
      have hqos : s'.cacheQoS = (config.cacheQoS && m.hasCatL3) := by rw [hs']
      rcases hregs with hsame | ⟨hitems, hwritten⟩
      · have hnone (cpu : Nat) (reg : UInt32) : s'.hardware.regs cpu reg = s'.before cpu reg := by
          rw [hbefore, hsame]
        exact ⟨rfl, fun cpu reg hne => absurd (hnone cpu reg) hne,
          fun reg ⟨cpu, hne⟩ => absurd (hnone cpu reg) hne⟩
      · have hchanged (cpu : Nat) (reg : UInt32)
            (hne : s'.hardware.regs cpu reg ≠ s'.before cpu reg) := hwritten cpu reg (hbefore ▸ hne)
        have hclass : s'.cacheQoS = true → (∀ cpu ∈ m.units, s'.before cpu 0xC8F = 0) ∧
            ((∃ i ∈ config.msrPreset, i.reg = 0xC91) ∨
              ∀ cpu ∈ m.units, hasCache m threads cpu = true) := fun hon => by
          obtain ⟨hconfig, hcat⟩ := Bool.and_eq_true_iff.mp (hqos ▸ hon)
          rw [hbefore]
          exact hable.qos hconfig hcat
        have hpresent (reg : UInt32) (hreg : ∃ i ∈ config.msrPreset, i.reg = reg) :
            Saved m s' reg := saved_of_preset hitems hbefore hable.uniform hreg
        refine ⟨rfl, fun cpu reg hne => (hchanged cpu reg hne).1, fun reg ⟨cpu, hne⟩ => ⟨?_,
          fun hon => (hclass hon).1, ?_⟩⟩
        · change s'.items ≠ []
          rw [hitems]
          exact fun hnil => hpreset (List.map_eq_nil_iff.mp (List.append_eq_nil_iff.mp hnil).2)
        · obtain ⟨hcpu, hreg | ⟨hon, rfl | ⟨rfl, hnone⟩⟩⟩ := hchanged cpu reg hne
          · exact .inl (hpresent reg hreg)
          · exact .inr ⟨hqos.trans hon, rfl⟩
          · rcases (hclass (hqos.trans hon)).2 with hreg | hall
            · exact .inl (hpresent 0xC91 hreg)
            · exact absurd (hall cpu hcpu) (ne_true_of_eq_false hnone)

/-- Without saving, the items stay and are all written. -/
theorem wrmsr_items {items : List MsrItem} {cacheQoS ok : Bool}
    (hrun : wrmsr m items threads cacheQoS false s = (ok, s')) :
    s' = { s with hardware := s'.hardware } ∧ (ok = true →
      Write.all (writeCpu m items threads cacheQoS) m.units s.hardware.next =
        (true, s'.hardware)) := by
  unfold wrmsr at hrun
  dsimp only at hrun
  split at hrun
  · obtain ⟨rfl, rfl⟩ := Prod.mk.inj hrun
    exact ⟨rfl, fun hok => Prod.ext hok rfl⟩
  · obtain ⟨rfl, rfl⟩ := Prod.mk.inj hrun
    exact ⟨rfl, nofun⟩

theorem destroy_initialized (m : Machine) (s : State) : (destroy m s).initialized = false := by
  unfold destroy
  split
  · dsimp only
    split
    · rfl
    · match hrun : wrmsr m s.items [] s.cacheQoS false
        { s with initialized := false, enabled := false } with
      | (ok, s') =>
        rw [(wrmsr_items hrun).1]
  · next hnot => exact Bool.eq_false_of_not_eq_true hnot

theorem inv_step (call : Call) (hkept : Kept m s call) (h : s.initialized = true → Inv m s)
    (hstep : step m s call = some s') : s'.initialized = true → Inv m s' := by
  cases call with
  | init config threads =>
    obtain rfl := Option.some.inj hstep
    intro hafter
    cases hbefore : s.initialized with
    | false => exact inv_init hkept hbefore
    | true =>
      have hsame : init m config threads s = s := if_pos hbefore
      rw [hsame]
      exact h hbefore
  | destroy =>
    obtain rfl := Option.some.inj hstep
    intro hafter
    rw [destroy_initialized] at hafter
    exact nomatch hafter

theorem Inv.restored (h : Inv m s) (hinit : s.initialized = true)
    (hok : (destroy m s).restored = true) : Restored (destroy m s) := by
  unfold destroy at hok ⊢
  rw [if_pos hinit] at hok ⊢
  dsimp only at hok ⊢
  split at hok
  · next hnone =>
    rw [if_pos hnone]
    intro reg hchanged
    exact absurd (List.isEmpty_iff.mp hnone) (h.covered reg hchanged).1
  · next hsome =>
    rw [if_neg hsome]
    match hrun : wrmsr m s.items [] s.cacheQoS false
        { s with initialized := false, enabled := false } with
    | (ok, s') =>
      rw [hrun] at hok
      obtain ⟨hs', hwritten⟩ := wrmsr_items hrun
      have hall := hwritten hok
      have hbefore : s'.before = s.before := by rw [hs']
      have hafter : s'.after = s.after := by rw [hs']
      intro reg hchanged cpu
      change s'.hardware.regs cpu reg = s'.before cpu reg
      have hchanged : ∃ cpu, s.after cpu reg ≠ s.before cpu reg := by
        rw [← hbefore, ← hafter]
        exact hchanged
      obtain ⟨-, hzero, hcases⟩ := h.covered reg hchanged
      rw [hbefore]
      by_cases hcpu : cpu ∈ m.units
      · by_cases hclass : s.cacheQoS = true ∧ reg = 0xC8F
        · obtain ⟨hon, rfl⟩ := hclass
          rw [hon] at hall
          rw [hzero hon cpu hcpu]
          exact units_eq_true (fun _ _ _ => writeCpu_class) hall cpu hcpu
        · obtain ⟨earlier, saved, v, hitems, hreg, hsaved, hvalue⟩ := hcases.resolve_right hclass
          rw [hitems] at hall
          rw [hvalue cpu hcpu]
          exact units_eq_true (fun _ _ _ => writeCpu_saved hsaved hreg fun hon heq =>
            hclass ⟨hon, heq⟩) hall cpu hcpu
      · have hsame := touches_units m s.items [] s.cacheQoS m.units s.hardware.next cpu reg
          fun hwrite => hcpu hwrite.1
        rw [hall] at hsame
        refine hsame.trans ?_
        change s.hardware.regs cpu reg = _
        rw [h.regs]
        by_contra hne
        exact hcpu (h.units cpu reg hne)

/-- After a `destroy` whose writes all succeed, what the last `init` changed is restored. -/
theorem destroy_restores {regs : Registers} {calls : List Call}
    (hrun : Run (step m) (Kept m) (start regs) calls s) (hok : (destroy m s).restored = true) :
    Restored (destroy m s) := by
  have hinv : s.initialized = true → Inv m s :=
    hrun.invariant (I := fun s => s.initialized = true → Inv m s)
      (fun _ call _ hkept h hstep => inv_step call hkept h hstep) nofun
  cases hinit : s.initialized with
  | true => exact (hinv hinit).restored hinit hok
  | false =>
    have hnot : destroy m s = { s with restored := false } :=
      if_neg (ne_true_of_eq_false hinit)
    rw [hnot] at hok
    exact nomatch hok

/-- Two CPUs, all of whose accesses succeed. -/
def twoCpus : Machine := ⟨0, [1], true, fun _ => true⟩

def intelPreset : RxConfig := ⟨[{ reg := 0x1A4, value := 0xF }], true, true⟩

theorem destroy_restores_twoCpus : ∃ s, exec (step twoCpus) (start fun _ _ => 0)
      [.init intelPreset [0, 1]] = some s ∧ s.after 1 0x1A4 = 0xF ∧
    Restored (destroy twoCpus s) := by
  have hkept : Kept twoCpus (start fun _ _ => 0) (.init intelPreset [0, 1]) := fun _ _ =>
    ⟨rfl, fun _ _ _ _ => rfl, fun _ _ => ⟨fun _ _ => rfl, .inr (by decide)⟩⟩
  exact ⟨_, rfl, by decide, destroy_restores (.cons hkept rfl (.nil _)) (by decide)⟩

/-- One thread mines on the first CPU, so that the second one is given class 1. The register that
says which cache this class may use is not restored. -/
theorem mask_unrestored : ∃ s, exec (step twoCpus)
      (start fun _ reg => if reg = 0xC91 then 0x7FF else 0) [.init intelPreset [0]] = some s ∧
    (destroy twoCpus s).restored = true ∧ ¬Restored (destroy twoCpus s) := by
  refine ⟨_, rfl, by decide, fun hrestored => ?_⟩
  exact absurd (hrestored 0xC91 ⟨1, by decide⟩ 1) (by decide)

end Run

end VeloxHash.RxMsr
