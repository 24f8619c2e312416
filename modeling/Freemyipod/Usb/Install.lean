import Freemyipod.Lib.Arena
import Mathlib.Algebra.Order.BigOperators.Group.List

/-!
# Usb.Install

`usbmanager_install_custom` of `usbglue.c`: the configurations, their interfaces, altsettings and
endpoints, and all descriptors are copied into one block of memory.

* `sizes`: the first pass, which adds up what is needed. `copy`: the second one, with a cursor for the
  structures and one for the descriptors.
* `ConfigurationAt`, `InstanceAt`: what is in the block then. All the pointers lead into it, but for the
  one to the debug interface.
* `install_copies`: no write leaves the block, and the whole instance is there.
-/

namespace Freemyipod
namespace Usb
namespace Install

open Bytes Bump

/-! ## The code -/

/-- `struct usb_endpoint` -/
structure Endpoint where
  raw : List UInt8
  length_raw : raw.length = 16

/-- A structure that ends in a count and pointers: the `n` bytes before the count, and what the pointers
lead to. -/
structure Counted (n : Nat) (α : Type) where
  fields : List UInt8
  items : List α
  length_fields : fields.length = n
  length_items : items.length < 256

/-- The structure without the pointers. -/
def Counted.raw {n : Nat} {α : Type} (c : Counted n α) : List UInt8 :=
  c.fields ++ [UInt8.ofNat c.items.length]

abbrev Altsetting := Counted 11 Endpoint

abbrev Interface := Counted 11 Altsetting

def wTotalLength (descriptor : List UInt8) : Nat :=
  (descriptor.getD 2 0).toNat + 256 * (descriptor.getD 3 0).toNat

/-- The first of the fields is the address of the descriptor. -/
structure Configuration extends Counted 15 Interface where
  descriptor : List UInt8
  header_le : 9 ≤ descriptor.length
  length_descriptor : wTotalLength descriptor = descriptor.length

def bLength (descriptor : List UInt8) : Nat := (descriptor.getD 0 0).toNat

structure StringDescriptor where
  raw : List UInt8
  header_le : 2 ≤ raw.length
  length_raw : bLength raw = raw.length

structure Arguments where
  devicedescriptor : List UInt8
  configurations : List Configuration
  stringdescriptors : List StringDescriptor
  enableDebug : Bool
  length_device : devicedescriptor.length = 18

/-- `usb_default_data` up to `stringdescriptor_count` and the bytes behind it, without its pointers to
descriptors, and the address of `usb_simpledebug_intf`. -/
structure Kernel where
  defaults : List UInt8
  length_defaults : defaults.length = 44
  usbSimpledebugIntf : Nat
  intf_lt : usbSimpledebugIntf < 4294967296

/-- `size`, `descsize` and `max_interfaces`. -/
structure Sizes where
  size : Nat
  descsize : Nat
  maxInterfaces : Nat

def altsettingSize (as : Altsetting) : Nat := 4 + 12 + (4 + 16) * as.items.length

def interfaceSize (intf : Interface) : Nat := 4 + 12 + (intf.items.map altsettingSize).sum

def configurationSize (c : Configuration) : Nat := 4 + 16 + (c.items.map interfaceSize).sum

def maxInterfaces (cs : List Configuration) : Nat :=
  cs.foldl (fun most c => if most < c.items.length then c.items.length else most) 0

/-- The loops over the configurations and the strings. -/
def firstPass (args : Arguments) : Sizes where
  size := 44 + (args.configurations.map configurationSize).sum
  descsize := 18 + (args.configurations.map fun c => wTotalLength c.descriptor).sum +
    (args.stringdescriptors.map fun d => bLength d.raw).sum
  maxInterfaces := maxInterfaces args.configurations

/-- `if (enable_debug)`: there must be a first configuration. -/
def withDebug (cs : List Configuration) (s : Sizes) : Option Sizes :=
  cs.head?.map fun first =>
    { size := s.size + 4
      descsize := s.descsize + 9
      maxInterfaces :=
        if first.items.length = s.maxInterfaces then s.maxInterfaces + 1 else s.maxInterfaces }

/-- The sums are of type `int`. -/
def sizes (args : Arguments) : Option Sizes := do
  let s ← if args.enableDebug then withDebug args.configurations (firstPass args) else some (firstPass args)
  let size := s.size + (4 * args.stringdescriptors.length + 16 + s.maxInterfaces)
  if size + s.descsize < 2147483648 then some { s with size } else none

def copyEndpoint (cell : Nat) (ep : Endpoint) : Arena → Arena := leaf ep.raw cell

def copyAltsetting (cell : Nat) (as : Altsetting) : Arena → Arena := node as.raw copyEndpoint cell as.items

def copyInterface (cell : Nat) (intf : Interface) : Arena → Arena :=
  node intf.raw copyAltsetting cell intf.items

def copyString (cell : Nat) (d : StringDescriptor) : Arena → Arena := leafHigh d.raw cell

/-- A configuration, up to its interfaces. -/
def openConfiguration (debug : Bool) (cell : Nat) (c : Configuration) (s : Arena) : Arena :=
  let config := s.low
  let s := s.takeLow (16 + 4 * c.items.length)
  let s := s.write config c.raw
  let s := s.write cell (pointer config)
  let cfgdescriptor := s.high
  let s := s.takeHigh (wTotalLength c.descriptor)
  let s := s.write cfgdescriptor c.descriptor
  let s := s.write config (pointer cfgdescriptor)
  if debug then s.takeLow 4 else s

def halfword (m : Memory) (a : Nat) : Nat := (m a).toNat + 256 * (m (a + 1)).toNat

def half (n : Nat) : List UInt8 := [UInt8.ofNat n, UInt8.ofNat (n / 256)]

/-- `usb_simpledebug_intf_desc` -/
def usbSimpledebugIntfDesc : List UInt8 := [9, 4, 0, 0, 0, 0xff, 0, 0, 0]

/-- `if (!i && enable_debug)` behind the loop over the `j` interfaces. -/
def addDebugInterface (k : Kernel) (config cfgdescriptor j : Nat) (s : Arena) : Arena :=
  let intfdescriptor := s.high
  let s := s.takeHigh 9
  let s := s.write intfdescriptor usbSimpledebugIntfDesc
  let s := s.write (intfdescriptor + 2) [UInt8.ofNat j]
  let s := s.write (config + 16 + 4 * j) (pointer k.usbSimpledebugIntf)
  let s := s.write (config + 15) [s.mem (config + 15) + 1]
  let s := s.write (cfgdescriptor + 2) (half (halfword s.mem (cfgdescriptor + 2) + 9))
  s.write (cfgdescriptor + 4) [s.mem (cfgdescriptor + 4) + 1]

def copyConfiguration (k : Kernel) (cell : Nat) (p : Bool × Configuration) (s : Arena) : Arena :=
  let t := forEach copyInterface (s.low + 16) p.2.items (openConfiguration p.1 cell p.2 s)
  if p.1 then addDebugInterface k s.low s.high p.2.items.length t else t

/-- Which configuration gets the debug interface: `!i && enable_debug`. -/
@[grind =] def flagged (debug : Bool) : List Configuration → List (Bool × Configuration)
  | [] => []
  | c :: cs => (debug, c) :: cs.map fun c => (false, c)

/-- The instance and the device descriptor. -/
def copyDevice (k : Kernel) (args : Arguments) (buf : Nat) (s : Arena) : Arena :=
  let s := s.takeLow (44 + 4 * args.configurations.length)
  let s := s.write buf k.defaults
  let devdescriptor := s.high
  let s := s.takeHigh 18
  let s := s.write devdescriptor args.devicedescriptor
  s.write (buf + 36) (pointer devdescriptor)

def copyStrings (l : List StringDescriptor) (buf : Nat) (s : Arena) : Arena :=
  let stringdescs := s.low
  let s := s.takeLow (4 * l.length)
  let s := s.write (buf + 40) (pointer stringdescs)
  forEach copyString stringdescs l s

/-- The second pass, for a block at `buf`. -/
def copy (k : Kernel) (args : Arguments) (sizes : Sizes) (buf : Nat) (mem : Memory) : Arena :=
  let s := copyDevice k args buf ⟨mem, [], buf, buf + sizes.size⟩
  let s := forEach (copyConfiguration k) (buf + 44) (flagged args.enableDebug args.configurations) s
  let s := copyStrings args.stringdescriptors buf s
  let state := s.low
  let s := s.takeLow (16 + sizes.maxInterfaces)
  s.write (buf + 12) (pointer state)

/-- What is returned, and what `usb_data` is then: nothing is installed without memory. -/
inductive Outcome where
  | failed
  | installed (usbData : Nat) (s : Arena)

def usbmanagerInstallCustom (k : Kernel) (malloc : Nat → Option Nat) (mem : Memory) (args : Arguments) :
    Option Outcome :=
  (sizes args).map fun sizes =>
    match malloc (sizes.size + sizes.descsize) with
    | none => .failed
    | some buf => .installed buf (copy k args sizes buf mem)

/-! ## What is in the block -/

section Spec

variable (lo hi : Nat) (k : Kernel)

def EndpointAt (q : Nat) (m : Memory) (ep : Endpoint) : Prop := LeafAt lo hi ep.raw q m

def AltsettingAt (q : Nat) (m : Memory) (as : Altsetting) : Prop :=
  NodeAt lo hi as.raw (EndpointAt lo hi) as.items q m

def InterfaceAt (q : Nat) (m : Memory) (intf : Interface) : Prop :=
  NodeAt lo hi intf.raw (AltsettingAt lo hi) intf.items q m

def StringAt (q : Nat) (m : Memory) (d : StringDescriptor) : Prop := LeafAt lo hi d.raw q m

/-- The descriptor of a configuration. That of the debug interface comes behind it and is counted in. -/
structure DescriptorAt (debug : Bool) (c : Configuration) (q : Nat) (m : Memory) : Prop where
  above : lo ≤ q
  below : q + (c.descriptor.length + if debug then 9 else 0) ≤ hi
  total : halfword m (q + 2) = (c.descriptor.length + if debug then 9 else 0) % 65536
  bNumInterfaces : m (q + 4) = c.descriptor.getD 4 0 + if debug then 1 else 0
  rest : ∀ i < c.descriptor.length, i < 2 ∨ 4 < i → m (q + i) = c.descriptor.getD i 0
  appended : debug = true → bytes m (q + c.descriptor.length) 9 =
    usbSimpledebugIntfDesc.set 2 (UInt8.ofNat c.items.length)

/-- A configuration, with the debug interface behind the others if there is one. -/
structure ConfigurationAt (q : Nat) (m : Memory) (p : Bool × Configuration) : Prop where
  above : lo ≤ q
  below : q + (16 + 4 * p.2.items.length + if p.1 then 4 else 0) ≤ hi
  fields : bytes m (q + 4) 11 = p.2.fields.drop 4
  count : m (q + 15) = UInt8.ofNat p.2.items.length + if p.1 then 1 else 0
  interfaces : Points (InterfaceAt lo hi) m (q + 16) p.2.items
  debug : p.1 = true → word m (q + 16 + 4 * p.2.items.length) = k.usbSimpledebugIntf
  descriptor : DescriptorAt lo hi p.1 p.2 (word m q) m

/-- The instance, which has the driver and the counts of `usb_default_data`. -/
structure InstanceAt (args : Arguments) (maxInterfaces q : Nat) (m : Memory) : Prop where
  driver : bytes m q 12 = k.defaults.take 12
  state : lo ≤ word m (q + 12) ∧ word m (q + 12) + (16 + maxInterfaces) ≤ hi
  counts : bytes m (q + 16) 20 = (k.defaults.drop 16).take 20
  devicedescriptor : LeafAt lo hi args.devicedescriptor (word m (q + 36)) m
  configurations : Points (ConfigurationAt lo hi k) m (q + 44) (flagged args.enableDebug args.configurations)
  strings : lo ≤ word m (q + 40) ∧ word m (q + 40) + 4 * args.stringdescriptors.length ≤ hi
  stringdescriptors : Points (StringAt lo hi) m (word m (q + 40)) args.stringdescriptors

end Spec

/-! ## The copies -/

variable {lo hi cell : Nat} {s t : Arena} {k : Kernel} {m : Memory}

def altsettingRoom (as : Altsetting) : Nat := 12 + 4 * as.items.length + (as.items.map fun _ => 16).sum

def interfaceRoom (intf : Interface) : Nat := 12 + 4 * intf.items.length + (intf.items.map altsettingRoom).sum

@[grind =] def configurationRoom (p : Bool × Configuration) : Nat :=
  16 + 4 * p.2.items.length + (if p.1 then 4 else 0) + (p.2.items.map interfaceRoom).sum

@[grind =] def descriptorRoom (p : Bool × Configuration) : Nat := p.2.descriptor.length + if p.1 then 9 else 0

@[simp] theorem length_raw {n : Nat} {α : Type} (c : Counted n α) : c.raw.length = n + 1 := by
  simp [Counted.raw, c.length_fields]

@[simp] theorem sum_map_zero {α : Type} (l : List α) : (l.map fun _ => 0).sum = 0 := by
  induction l with
  | nil => rfl
  | cons x l ih => simp

theorem copyEndpoint_puts (hhi : hi ≤ 4294967296) (ep : Endpoint) (cell : Nat) (s : Arena)
    (hcell : cell + 4 ≤ s.low) (hroom : Room lo hi 16 0 s) :
    Puts cell 16 0 (fun q m => EndpointAt lo hi q m ep) s (copyEndpoint cell ep s) := by
  have hputs : Puts cell ep.raw.length 0 (LeafAt lo hi ep.raw) s (leaf ep.raw cell s) :=
    leaf_puts hcell (by rwa [ep.length_raw]) hhi (by rw [ep.length_raw]; omega)
  rwa [ep.length_raw] at hputs

theorem copyAltsetting_puts (hhi : hi ≤ 4294967296) (as : Altsetting) (cell : Nat) (s : Arena)
    (hcell : cell + 4 ≤ s.low) (hroom : Room lo hi (altsettingRoom as) 0 s) :
    Puts cell (altsettingRoom as) 0 (fun q m => AltsettingAt lo hi q m as) s
      (copyAltsetting cell as s) := by
  have hputs := @node_puts Endpoint s as.raw lo hi cell (EndpointAt lo hi) copyEndpoint (fun _ => 16)
    (fun _ => 0) as.items (fun ep _ c s => copyEndpoint_puts hhi ep c s) hcell hhi (by simp)
    (by rw [length_raw, sum_map_zero]; exact hroom)
  rw [length_raw, sum_map_zero] at hputs
  exact hputs

theorem copyInterface_puts (hhi : hi ≤ 4294967296) (intf : Interface) (cell : Nat) (s : Arena)
    (hcell : cell + 4 ≤ s.low) (hroom : Room lo hi (interfaceRoom intf) 0 s) :
    Puts cell (interfaceRoom intf) 0 (fun q m => InterfaceAt lo hi q m intf) s
      (copyInterface cell intf s) := by
  have hputs := @node_puts Altsetting s intf.raw lo hi cell (AltsettingAt lo hi) copyAltsetting
    altsettingRoom (fun _ => 0) intf.items (fun as _ c s => copyAltsetting_puts hhi as c s) hcell hhi
    (by simp) (by rw [length_raw, sum_map_zero]; exact hroom)
  rw [length_raw, sum_map_zero] at hputs
  exact hputs

theorem openConfiguration_mem (debug : Bool) (c : Configuration) :
    (openConfiguration debug cell c s).mem =
      put (put (put (put s.mem s.low c.raw) cell (pointer s.low)) s.high c.descriptor) s.low
        (pointer s.high) := by
  cases debug <;> rfl

theorem openConfiguration_grows (debug : Bool) (c : Configuration) :
    Grows cell (cell + 4) (16 + 4 * c.items.length + if debug then 4 else 0) c.descriptor.length s
      (openConfiguration debug cell c s) := by
  have hgrows := (((((Grows.refl cell (cell + 4) s).takeLow (16 + 4 * c.items.length)).write s.low c.raw
    fun i hi hi' => .inr (.inl ⟨hi, by simp only [length_raw, takeLow_low] at hi' ⊢; omega⟩)).write cell
    (pointer s.low) fun i hi hi' => .inl ⟨hi, hi'⟩).takeHigh c.descriptor.length).write s.high c.descriptor
    fun i hi hi' => .inr (.inr ⟨hi, hi'⟩)
  have hgrows' := hgrows.write s.low (pointer s.high) fun i hi hi' => .inr (.inl ⟨hi, by
    simp only [length_pointer, takeHigh_low, write_low, takeLow_low] at hi' ⊢
    omega⟩)
  rw [Nat.zero_add, Nat.zero_add, ← c.length_descriptor] at hgrows'
  rw [← c.length_descriptor]
  cases debug with
  | false => exact hgrows'
  | true => exact hgrows'.takeLow 4

theorem openConfiguration_spec (debug : Bool) (c : Configuration) (hcell : cell + 4 ≤ s.low)
    (hlow : s.low + 16 ≤ s.high) (hhigh : s.high + c.descriptor.length ≤ 4294967296) :
    word (openConfiguration debug cell c s).mem cell = s.low ∧
      word (openConfiguration debug cell c s).mem s.low = s.high ∧
      (∀ i, 4 ≤ i → i < 16 → (openConfiguration debug cell c s).mem (s.low + i) = c.raw.getD i 0) ∧
      bytes (openConfiguration debug cell c s).mem s.high c.descriptor.length = c.descriptor := by
  have hheader := c.header_le
  rw [openConfiguration_mem]
  refine ⟨?_, word_put (by omega), fun i hi hi' => ?_, ?_⟩
  · rw [word_put_disjoint (.inl hcell), word_put_disjoint (.inl (by omega)), word_put (by omega)]
  · rw [put_outside (.inr (by rw [length_pointer]; omega)), put_outside (.inl (by omega)),
      put_outside (.inr (by rw [length_pointer]; omega)), put_inside (by rw [length_raw]; omega)]
  · rw [bytes_put_disjoint (.inr (by rw [length_pointer]; omega)), bytes_put]

theorem bytes_eq_of {a n : Nat} {bs : List UInt8} (hlen : bs.length = n)
    (h : ∀ i < n, m (a + i) = bs.getD i 0) : bytes m a n = bs := by
  subst hlen
  exact (bytes_eq_iff a).2 h

theorem halfword_congr {m' : Memory} {a : Nat} (h : ∀ i, a ≤ i → i < a + 2 → m' i = m i) :
    halfword m' a = halfword m a := by
  rw [halfword, halfword, h a (by omega) (by omega), h (a + 1) (by omega) (by omega)]

section Put

variable {a i p n : Nat} {x : UInt8} {bs : List UInt8}

theorem put_below (h : i < a) : put m a bs i = m i := put_outside (.inl h)

theorem put_single : put m a [x] a = x := @put_inside m a [x] 0 Nat.zero_lt_one

theorem put_single_of_ne (h : i ≠ a) : put m a [x] i = m i :=
  put_outside (by simp only [List.length_singleton]; omega)

theorem put_pointer_above (h : a + 4 ≤ i) : put m a (pointer p) i = m i := put_outside (.inr h)

theorem put_half_above (h : a + 2 ≤ i) : put m a (half n) i = m i := put_outside (.inr h)

theorem put_half_low : put m a (half n) a = UInt8.ofNat n := @put_inside m a (half n) 0 Nat.two_pos

theorem put_half_high : put m a (half n) (a + 1) = UInt8.ofNat (n / 256) :=
  @put_inside m a (half n) 1 Nat.one_lt_two

end Put

/-- What the debug interface is made of, in memory. -/
structure DebugAdded (k : Kernel) (config cfgdescriptor j : Nat) (v t : Arena) : Prop where
  intf : word t.mem (config + 16 + 4 * j) = k.usbSimpledebugIntf
  count : t.mem (config + 15) = v.mem (config + 15) + 1
  total : halfword t.mem (cfgdescriptor + 2) = (halfword v.mem (cfgdescriptor + 2) + 9) % 65536
  bNumInterfaces : t.mem (cfgdescriptor + 4) = v.mem (cfgdescriptor + 4) + 1
  appended : bytes t.mem v.high 9 = usbSimpledebugIntfDesc.set 2 (UInt8.ofNat j)
  same : ∀ i < v.high, i ≠ config + 15 → i < config + 16 + 4 * j ∨ config + 20 + 4 * j ≤ i →
    i < cfgdescriptor + 2 ∨ cfgdescriptor + 5 ≤ i → t.mem i = v.mem i

theorem bytes_set {a : Nat} {x : UInt8} (m : Memory) :
    bytes (put (put m a usbSimpledebugIntfDesc) (a + 2) [x]) a 9 = usbSimpledebugIntfDesc.set 2 x := by
  have hlen : (usbSimpledebugIntfDesc.set 2 x).length = 9 := by simp [usbSimpledebugIntfDesc]
  refine bytes_eq_of hlen fun i hi => ?_
  by_cases h2 : i = 2
  · rw [h2, put_single]
    rfl
  · rw [put_single_of_ne (by omega), put_inside hi]
    simp [List.getD_eq_getElem?_getD, List.getElem?_set_ne (Ne.symm h2)]

theorem addDebugInterface_added {config cfgdescriptor j : Nat} (hconfig : config + 20 + 4 * j ≤ cfgdescriptor)
    (hcfg : cfgdescriptor + 5 ≤ s.high) :
    DebugAdded k config cfgdescriptor j s (addDebugInterface k config cfgdescriptor j s) := by
  constructor <;> simp only [addDebugInterface, write_mem, takeHigh_mem]
  · rw [word_put_disjoint (.inl (by omega)), word_put_disjoint (.inl (by omega)),
      word_put_disjoint (.inr (by rw [List.length_singleton]; omega)), word_put k.intf_lt]
  · simp (disch := omega) only [put_below, put_single]
  · simp (disch := omega) only [halfword, put_below, put_single_of_ne, put_pointer_above, put_half_low,
      put_half_high, UInt8.toNat_ofNat']
    omega
  · simp (disch := omega) only [put_below, put_single, put_single_of_ne, put_pointer_above, put_half_above]
  · rw [bytes_put_disjoint (.inr (by rw [List.length_singleton]; omega)),
      bytes_put_disjoint (.inr (show cfgdescriptor + 2 + 2 ≤ s.high by omega)),
      bytes_put_disjoint (.inr (by rw [List.length_singleton]; omega)),
      bytes_put_disjoint (.inr (by rw [length_pointer]; omega))]
    exact bytes_set s.mem
  · intro i hi hcount hintf hcfg
    rw [put_single_of_ne (by omega), put_outside (show _ ∨ cfgdescriptor + 2 + 2 ≤ i by omega),
      put_single_of_ne hcount, put_outside (show _ ∨ config + 16 + 4 * j + 4 ≤ i by omega),
      put_below (by omega), put_below hi]

/-- What is in memory at the end of a turn that began with the cursors of `s`. -/
structure Written (lo hi : Nat) (k : Kernel) (debug : Bool) (c : Configuration) (cell : Nat) (s t : Arena) :
    Prop where
  cell : word t.mem cell = s.low
  descriptor : word t.mem s.low = s.high
  fields : ∀ i, 4 ≤ i → i < 15 → t.mem (s.low + i) = c.raw.getD i 0
  count : t.mem (s.low + 15) = UInt8.ofNat c.items.length + if debug then 1 else 0
  interfaces : ∀ m, Keeps s t m → Points (InterfaceAt lo hi) m (s.low + 16) c.items
  intf : debug = true → word t.mem (s.low + 16 + 4 * c.items.length) = k.usbSimpledebugIntf
  total : halfword t.mem (s.high + 2) = (c.descriptor.length + if debug then 9 else 0) % 65536
  bNumInterfaces : t.mem (s.high + 4) = c.descriptor.getD 4 0 + if debug then 1 else 0
  rest : ∀ i < c.descriptor.length, i < 2 ∨ 4 < i → t.mem (s.high + i) = c.descriptor.getD i 0
  appended : debug = true → bytes t.mem (s.high + c.descriptor.length) 9 =
    usbSimpledebugIntfDesc.set 2 (UInt8.ofNat c.items.length)

theorem raw_count (c : Configuration) : c.raw.getD 15 0 = UInt8.ofNat c.items.length := by
  have hlen := c.length_fields
  rw [Counted.raw, List.getD_append_right _ _ _ _ (by omega), hlen]
  rfl

theorem raw_fields (c : Configuration) {i : Nat} (hi : i < 15) : c.raw.getD i 0 = c.fields.getD i 0 := by
  rw [Counted.raw, List.getD_append _ _ _ _ (by rw [c.length_fields]; exact hi)]

theorem Written.at {debug : Bool} {c : Configuration} (h : Written lo hi k debug c cell s t)
    (hlo : lo ≤ s.low) (hroom : s.high + (c.descriptor.length + if debug then 9 else 0) ≤ hi)
    (hmid : s.low + (16 + 4 * c.items.length + if debug then 4 else 0) ≤ s.high)
    (hlow : s.low + (16 + 4 * c.items.length + if debug then 4 else 0) ≤ t.low)
    (hhigh : s.high + (c.descriptor.length + if debug then 9 else 0) ≤ t.high) (hkeeps : Keeps s t m) :
    ConfigurationAt lo hi k s.low m (debug, c) := by
  have hheader := c.header_le
  have hm : ∀ i, s.low ≤ i → i < s.low + (16 + 4 * c.items.length + if debug then 4 else 0) →
      m i = t.mem i := fun i hi hi' => hkeeps i (.inl ⟨hi, by omega⟩)
  have hd : ∀ i, s.high ≤ i → i < s.high + (c.descriptor.length + if debug then 9 else 0) →
      m i = t.mem i := fun i hi hi' => hkeeps i (.inr ⟨hi, by omega⟩)
  have hword : word m s.low = s.high := by
    rw [← h.descriptor]
    exact word_congr fun i hi hi' => hm i hi (by omega)
  refine ⟨hlo, by simp only; omega, ?_, ?_, h.interfaces m hkeeps, fun hdebug => ?_, ?_⟩
  · have hlen : (c.fields.drop 4).length = 11 := by rw [List.length_drop, c.length_fields]
    simp only
    refine bytes_eq_of hlen fun i hi => ?_
    rw [Nat.add_assoc, hm _ (by omega) (by omega), h.fields _ (by omega) (by omega),
      raw_fields c (by omega)]
    simp [List.getD_eq_getElem?_getD]
  · simp only
    rw [hm _ (by omega) (by omega), h.count]
  · simp only at hdebug ⊢
    rw [← h.intf hdebug]
    rw [hdebug] at hm
    exact word_congr fun i hi hi' => hm i (by omega) (by simp only [if_true]; omega)
  · rw [hword]
    refine ⟨by omega, hroom, ?_, ?_, fun i hi hi' => ?_, fun hdebug => ?_⟩
    · rw [← h.total]
      exact halfword_congr fun i hi hi' => hd i (by omega) (by omega)
    · rw [hd _ (by omega) (by omega), h.bNumInterfaces]
    · have hlt : i < c.descriptor.length := hi
      rw [hd _ (by omega) (by omega), h.rest i hlt hi']
    · rw [← h.appended hdebug]
      simp only at hdebug
      rw [hdebug] at hd
      exact bytes_congr fun i hi hi' => hd i (by omega) (by simp only [if_true]; omega)

/-- The same before the debug interface is added: its place `slot` bytes before the interfaces is free. -/
structure Opened (lo hi : Nat) (c : Configuration) (cell slot : Nat) (s v : Arena) : Prop where
  cell : word v.mem cell = s.low
  descriptor : word v.mem s.low = s.high
  fields : ∀ i, 4 ≤ i → i < 16 → v.mem (s.low + i) = c.raw.getD i 0
  bytes : bytes v.mem s.high c.descriptor.length = c.descriptor
  interfaces : ∀ m, (∀ i, s.low + 16 ≤ i → i < s.low + (16 + 4 * c.items.length) → m i = v.mem i) →
    (∀ i, s.low + (16 + 4 * c.items.length + slot) ≤ i → i < v.low → m i = v.mem i) →
      Points (InterfaceAt lo hi) m (s.low + 16) c.items

theorem copyInterfaces_opened {debug : Bool} {c : Configuration} (hhi : hi ≤ 4294967296)
    (hcell : cell + 4 ≤ s.low)
    (hroom : Room lo hi (configurationRoom (debug, c)) (descriptorRoom (debug, c)) s) :
    Grows cell (cell + 4) (configurationRoom (debug, c)) c.descriptor.length s
        (forEach copyInterface (s.low + 16) c.items (openConfiguration debug cell c s)) ∧
      Opened lo hi c cell (if debug then 4 else 0) s
        (forEach copyInterface (s.low + 16) c.items (openConfiguration debug cell c s)) := by
  obtain ⟨hlo, hlow, hhigh⟩ := hroom
  simp only [configurationRoom, descriptorRoom] at hlow hhigh
  have hopen := @openConfiguration_grows cell s debug c
  obtain ⟨hucell, hudesc, huraw, hubytes⟩ := openConfiguration_spec debug c hcell
    (show s.low + 16 ≤ s.high by omega) (by omega)
  generalize openConfiguration debug cell c s = u at *
  have hulow := hopen.low
  have huhigh := hopen.high
  have hfills : Fills (InterfaceAt lo hi) (s.low + 16) c.items (c.items.map interfaceRoom).sum
      (c.items.map fun _ => 0).sum u (forEach copyInterface (s.low + 16) c.items u) := by
    refine forEach_fills (fun intf _ c s => copyInterface_puts hhi intf c s) _ (by omega)
      ⟨by omega, by omega, ?_⟩
    rw [sum_map_zero]
    omega
  rw [sum_map_zero] at hfills
  generalize forEach copyInterface (s.low + 16) c.items u = v at *
  have hvlow := hfills.low
  have hvhigh := hfills.high
  refine ⟨?_, ?_, ?_, fun i hi hi' => ?_, ?_, fun m harray hobjects => ?_⟩
  · have hgrows := hopen.trans hfills.toGrows fun i hi hi' => .inr (.inl ⟨by omega, by omega⟩)
    exact hgrows
  · rw [← hucell]
    exact word_congr fun i hi hi' => hfills.same (by omega) (by omega) (by omega)
  · rw [← hudesc]
    exact word_congr fun i hi hi' => hfills.same (by omega) (by omega) (by omega)
  · rw [← huraw i hi hi']
    exact hfills.same (by omega) (by omega) (by omega)
  · have hsame : bytes v.mem s.high c.descriptor.length = bytes u.mem s.high c.descriptor.length :=
      bytes_congr fun i hi hi' => hfills.same (by omega) (by omega) (by omega)
    rw [hsame, hubytes]
  · refine hfills.array m (fun i hi hi' => harray i hi (by omega)) fun i hi => ?_
    exact hobjects i (by omega) (by omega)

theorem Opened.byte {c : Configuration} {slot i : Nat} (h : Opened lo hi c cell slot s t)
    (hi : i < c.descriptor.length) : t.mem (s.high + i) = c.descriptor.getD i 0 :=
  (bytes_eq_iff s.high).1 h.bytes i hi

theorem Opened.total {c : Configuration} {slot : Nat} (h : Opened lo hi c cell slot s t) :
    halfword t.mem (s.high + 2) = c.descriptor.length ∧ c.descriptor.length < 65536 := by
  have hheader := c.header_le
  have hlength := c.length_descriptor
  have h2 := h.byte (i := 2) (by omega)
  have h3 := h.byte (i := 3) (by omega)
  rw [wTotalLength] at hlength
  rw [halfword, Nat.add_assoc, h2, h3, hlength]
  have hlow := (c.descriptor.getD 2 0).toNat_lt
  have hhigh := (c.descriptor.getD 3 0).toNat_lt
  exact ⟨rfl, by omega⟩

/-- Without the debug interface that is all. -/
theorem Opened.written {c : Configuration} (h : Opened lo hi c cell 0 s t)
    (hlow : s.low + (16 + 4 * c.items.length) ≤ t.low) : Written lo hi k false c cell s t := by
  have hheader := c.header_le
  obtain ⟨htotal, hlt⟩ := h.total
  refine ⟨h.cell, h.descriptor, fun i hi hi' => h.fields i hi (by omega), ?_, fun m hkeeps => ?_, by simp, ?_,
    ?_, fun i hi _ => h.byte hi, by simp⟩
  · rw [h.fields 15 (by omega) (by omega), raw_count]
    simp
  · refine h.interfaces m (fun i hi hi' => hkeeps i (.inl ⟨by omega, by omega⟩)) fun i hi hi' => ?_
    exact hkeeps i (.inl ⟨by omega, hi'⟩)
  · rw [htotal]
    simp only [Bool.false_eq_true, if_false]
    omega
  · rw [h.byte (by omega)]
    simp

theorem Opened.added {v : Arena} {c : Configuration} (h : Opened lo hi c cell 4 s v)
    (hadd : DebugAdded k s.low s.high c.items.length v t) (hcell : cell + 4 ≤ s.low)
    (hlow : s.low + (20 + 4 * c.items.length) ≤ v.low) (hmid : v.low ≤ s.high)
    (hhigh : v.high = s.high + c.descriptor.length) (htlow : t.low = v.low) :
    Written lo hi k true c cell s t := by
  have hheader := c.header_le
  obtain ⟨htotal, hlt⟩ := h.total
  refine ⟨?_, ?_, fun i hi hi' => ?_, ?_, fun m hkeeps => ?_, fun _ => hadd.intf, ?_, ?_, fun i hi hi' => ?_,
    fun _ => ?_⟩
  · rw [← h.cell]
    exact word_congr fun i hi hi' => hadd.same i (by omega) (by omega) (by omega) (by omega)
  · rw [← h.descriptor]
    exact word_congr fun i hi hi' => hadd.same i (by omega) (by omega) (by omega) (by omega)
  · rw [hadd.same _ (by omega) (by omega) (by omega) (by omega), h.fields i hi (by omega)]
  · rw [hadd.count, h.fields 15 (by omega) (by omega), raw_count]
    simp
  · refine h.interfaces m (fun i hi hi' => ?_) fun i hi hi' => ?_
    · rw [hkeeps i (.inl ⟨by omega, by omega⟩)]
      exact hadd.same i (by omega) (by omega) (by omega) (by omega)
    · rw [hkeeps i (.inl ⟨by omega, by omega⟩)]
      exact hadd.same i (by omega) (by omega) (by omega) (by omega)
  · rw [hadd.total, htotal]
    simp
  · rw [hadd.bNumInterfaces, h.byte (by omega)]
    simp
  · rw [hadd.same _ (by omega) (by omega) (by omega) (by omega), h.byte hi]
  · rw [← hhigh]
    exact hadd.appended

theorem addDebugInterface_grows {v : Arena} {a b cfgdescriptor config j : Nat}
    (h : Grows cell (cell + 4) a b s v) (hconfig : s.low ≤ config) (hlow : config + 20 + 4 * j ≤ v.low)
    (hcfg : s.high ≤ cfgdescriptor) (hhigh : cfgdescriptor + 5 ≤ v.high) :
    Grows cell (cell + 4) a (b + 9) s (addDebugInterface k config cfgdescriptor j v) := by
  have hslow := h.low
  have hshigh := h.high
  -- every write is behind one of the cursors of `s`
  have hstructure : ∀ i, s.low ≤ i → i < v.low → Within cell (cell + 4) s (v.takeHigh 9) i :=
    fun i hi hi' => .inr (.inl ⟨hi, hi'⟩)
  have hdescriptor : ∀ i, s.high ≤ i → i < v.high + 9 → Within cell (cell + 4) s (v.takeHigh 9) i :=
    fun i hi hi' => .inr (.inr ⟨hi, hi'⟩)
  refine ((((((h.takeHigh 9).write v.high usbSimpledebugIntfDesc ?_).write _ _ ?_).write _ _ ?_).write _ _
    ?_).write _ _ ?_).write _ _ ?_
  · intro i hi hi'
    exact hdescriptor i (by omega) hi'
  · intro i hi hi'
    rw [List.length_singleton] at hi'
    exact hdescriptor i (by omega) (by omega)
  · intro i hi hi'
    rw [length_pointer] at hi'
    exact hstructure i (by omega) (by omega)
  · intro i hi hi'
    rw [List.length_singleton] at hi'
    exact hstructure i (by omega) (by omega)
  · intro i hi hi'
    exact hdescriptor i (by omega) (show i < v.high + 9 from Nat.lt_of_lt_of_le hi' (by
      show cfgdescriptor + 2 + 2 ≤ _
      omega))
  · intro i hi hi'
    rw [List.length_singleton] at hi'
    exact hdescriptor i (by omega) (by omega)

theorem copyConfiguration_puts (hhi : hi ≤ 4294967296) (p : Bool × Configuration) (cell : Nat) (s : Arena)
    (hcell : cell + 4 ≤ s.low) (hroom : Room lo hi (configurationRoom p) (descriptorRoom p) s) :
    Puts cell (configurationRoom p) (descriptorRoom p) (fun q m => ConfigurationAt lo hi k q m p) s
      (copyConfiguration k cell p s) := by
  obtain ⟨debug, c⟩ := p
  have hheader := c.header_le
  obtain ⟨hgrows, hopened⟩ := copyInterfaces_opened hhi hcell hroom
  obtain ⟨hlo, hlow, hhigh⟩ := hroom
  rw [copyConfiguration]
  simp only
  generalize forEach copyInterface (s.low + 16) c.items (openConfiguration debug cell c s) = v at *
  have hvlow := hgrows.low
  have hvhigh := hgrows.high
  cases debug with
  | false =>
    simp only [configurationRoom, descriptorRoom, Bool.false_eq_true, if_false, Nat.add_zero] at *
    refine ⟨hgrows, fun m hkeeps => ?_⟩
    rw [hopened.cell]
    exact (hopened.written (k := k) (by omega)).at hlo (by simp; omega) (by simp; omega) (by simp; omega)
      (by simp; omega) hkeeps
  | true =>
    simp only [configurationRoom, descriptorRoom, if_true] at *
    have hadd : DebugAdded k s.low s.high c.items.length v
        (addDebugInterface k s.low s.high c.items.length v) :=
      addDebugInterface_added (by omega) (by omega)
    have htotal := addDebugInterface_grows (k := k) (j := c.items.length) hgrows (le_refl s.low) (by omega)
      (le_refl s.high) (by omega)
    generalize addDebugInterface k s.low s.high c.items.length v = t at *
    have htlow := htotal.low
    have hthigh := htotal.high
    have hwritten := hopened.added hadd hcell (by omega) (by omega) hvhigh (by omega)
    refine ⟨htotal, fun m hkeeps => ?_⟩
    rw [hwritten.cell]
    exact hwritten.at hlo (by simp; omega) (by simp; omega) (by simp; omega) (by simp; omega) hkeeps

/-! ## The two passes agree -/

theorem sum_map_add {α : Type} {f g : α → Nat} {n : Nat} {l : List α} (h : ∀ x, f x = n + g x) :
    (l.map f).sum = n * l.length + (l.map g).sum := by
  induction l with
  | nil => simp
  | cons x l ih =>
    simp only [List.map_cons, List.sum_cons, List.length_cons, ih, h x, Nat.mul_succ]
    omega

theorem altsettingSize_eq (as : Altsetting) : altsettingSize as = 4 + altsettingRoom as := by
  have hsum : (as.items.map fun _ => 16).sum = 16 * as.items.length + (as.items.map fun _ => 0).sum :=
    sum_map_add fun _ => rfl
  rw [altsettingSize, altsettingRoom, hsum, sum_map_zero]
  omega

theorem interfaceSize_eq (intf : Interface) : interfaceSize intf = 4 + interfaceRoom intf := by
  rw [interfaceSize, interfaceRoom, sum_map_add altsettingSize_eq]
  omega

theorem configurationSize_eq (c : Configuration) :
    configurationSize c = 4 + configurationRoom (false, c) := by
  rw [configurationSize, configurationRoom, sum_map_add interfaceSize_eq]
  simp only [Bool.false_eq_true, if_false]
  omega

theorem configurationRoom_flagged {debug : Bool} {c : Configuration} {cs : List Configuration} :
    ((flagged debug (c :: cs)).map configurationRoom).sum =
      ((c :: cs).map fun c => configurationRoom (false, c)).sum + if debug then 4 else 0 := by
  simp only [flagged, List.map_cons, List.sum_cons, List.map_map, Function.comp_def, configurationRoom,
    Bool.false_eq_true, if_false]
  omega

theorem descriptorRoom_flagged {debug : Bool} {c : Configuration} {cs : List Configuration} :
    ((flagged debug (c :: cs)).map descriptorRoom).sum =
      ((c :: cs).map fun c => wTotalLength c.descriptor).sum + if debug then 9 else 0 := by
  simp only [flagged, List.map_cons, List.sum_cons, List.map_map, Function.comp_def, descriptorRoom,
    Bool.false_eq_true, if_false, Nat.add_zero, Configuration.length_descriptor]
  omega

@[simp] theorem length_flagged {debug : Bool} {cs : List Configuration} :
    (flagged debug cs).length = cs.length := by
  cases cs <;> simp [flagged]

theorem le_maxInterfaces {cs : List Configuration} {c : Configuration} (h : c ∈ cs) :
    c.items.length ≤ maxInterfaces cs := by
  have hfold : ∀ (cs : List Configuration) (most : Nat),
      most ≤ cs.foldl (fun most c => if most < c.items.length then c.items.length else most) most ∧
        ∀ c ∈ cs, c.items.length ≤
          cs.foldl (fun most c => if most < c.items.length then c.items.length else most) most := by
    intro cs
    induction cs with
    | nil => simp
    | cons c cs ih =>
      intro most
      obtain ⟨hmost, hall⟩ := ih (if most < c.items.length then c.items.length else most)
      simp only [List.foldl_cons, List.forall_mem_cons]
      refine ⟨le_trans ?_ hmost, le_trans ?_ hmost, hall⟩
      · split <;> omega
      · split <;> omega
  exact (hfold cs 0).2 c h

/-- The first pass counts what the second one takes, and a place for each interface's altsetting. -/
structure Agree (args : Arguments) (sz : Sizes) : Prop where
  size : sz.size = 44 + 4 * args.configurations.length +
    ((flagged args.enableDebug args.configurations).map configurationRoom).sum +
    4 * args.stringdescriptors.length + (16 + sz.maxInterfaces)
  descsize : sz.descsize = 18 + ((flagged args.enableDebug args.configurations).map descriptorRoom).sum +
    (args.stringdescriptors.map fun d => d.raw.length).sum
  interfaces : ∀ p ∈ flagged args.enableDebug args.configurations,
    p.2.items.length + (if p.1 then 1 else 0) ≤ sz.maxInterfaces

theorem sizes_agree {args : Arguments} {sz : Sizes} (h : sizes args = some sz) : Agree args sz := by
  have hconfigurations : (args.configurations.map configurationSize).sum =
      4 * args.configurations.length + (args.configurations.map fun c => configurationRoom (false, c)).sum :=
    sum_map_add configurationSize_eq
  have hstrings : (args.stringdescriptors.map fun d => bLength d.raw) =
      args.stringdescriptors.map fun d => d.raw.length :=
    List.map_congr_left fun d _ => d.length_raw
  have hmost := @le_maxInterfaces args.configurations
  rw [sizes] at h
  cases hdebug : args.enableDebug with
  | false =>
    simp only [hdebug, Bool.false_eq_true, if_false, Option.bind_eq_bind, Option.bind_some, firstPass,
      Option.ite_none_right_eq_some, Option.some.injEq] at h
    obtain ⟨-, rfl⟩ := h
    have hflagged : flagged false args.configurations = args.configurations.map fun c => (false, c) := by
      cases args.configurations <;> rfl
    refine ⟨?_, ?_, ?_⟩
    · rw [hdebug, hflagged, List.map_map]
      simp only [Function.comp_def]
      omega
    · rw [hdebug, hflagged, List.map_map, hstrings]
      simp [Function.comp_def, descriptorRoom, Configuration.length_descriptor]
    · rw [hdebug, hflagged, List.forall_mem_map]
      simpa using fun c => @hmost c
  | true =>
    cases hcs : args.configurations with
    | nil => simp [hdebug, withDebug, hcs] at h
    | cons c cs =>
      rw [hcs] at hconfigurations
      simp only [hdebug, if_true, withDebug, hcs, List.head?_cons, Option.map_some, Option.bind_eq_bind,
        Option.bind_some, firstPass, Option.ite_none_right_eq_some, Option.some.injEq] at h
      obtain ⟨-, rfl⟩ := h
      rw [hcs] at hmost
      refine ⟨?_, ?_, ?_⟩
      · rw [hdebug, hcs, configurationRoom_flagged, hconfigurations]
        simp only [if_true]
        omega
      · rw [hdebug, hcs, descriptorRoom_flagged, hstrings]
        simp only [if_true]
        omega
      · rw [hdebug, hcs]
        have hc := @hmost c List.mem_cons_self
        simp only [flagged, List.forall_mem_cons, List.forall_mem_map, if_true, Bool.false_eq_true,
          if_false, Nat.add_zero]
        refine ⟨?_, fun c' hc' => ?_⟩
        · split <;> omega
        · have hle := @hmost c' (List.mem_cons_of_mem _ hc')
          split <;> omega

theorem copyString_puts (hhi : hi ≤ 4294967296) (d : StringDescriptor) (cell : Nat) (s : Arena)
    (hcell : cell + 4 ≤ s.low) (hroom : Room lo hi 0 d.raw.length s) :
    Puts cell 0 d.raw.length (fun q m => StringAt lo hi q m d) s (copyString cell d s) := by
  have hheader := d.header_le
  exact leafHigh_puts hcell hroom hhi (by omega)

theorem copyStrings_spec {l : List StringDescriptor} {buf : Nat} (hhi : hi ≤ 4294967296)
    (hbuf : buf + 44 ≤ s.low) (hlt : s.low < hi)
    (hroom : Room lo hi (4 * l.length) (l.map fun d => d.raw.length).sum s) :
    Grows (buf + 40) (buf + 44) (4 * l.length) (l.map fun d => d.raw.length).sum s (copyStrings l buf s) ∧
      word (copyStrings l buf s).mem (buf + 40) = s.low ∧
      ∀ m, Keeps s (copyStrings l buf s) m → Points (StringAt lo hi) m s.low l := by
  obtain ⟨hlo, hlow, hhigh⟩ := hroom
  have hgrows := ((Grows.refl (buf + 40) (buf + 44) s).takeLow (4 * l.length)).write (buf + 40)
    (pointer s.low) fun i hi hi' => .inl ⟨hi, by rw [length_pointer] at hi'; omega⟩
  obtain ⟨u, hu⟩ : ∃ u, u = (s.takeLow (4 * l.length)).write (buf + 40) (pointer s.low) := ⟨_, rfl⟩
  have hword : word u.mem (buf + 40) = s.low := by
    rw [hu]
    exact word_put (by omega)
  rw [copyStrings, ← hu]
  rw [← hu, Nat.zero_add] at hgrows
  have hulow := hgrows.low
  have huhigh := hgrows.high
  have hfills : Fills (StringAt lo hi) s.low l (l.map fun _ => 0).sum (l.map fun d => d.raw.length).sum u
      (forEach copyString s.low l u) :=
    forEach_fills (fun d _ c s => copyString_puts hhi d c s) _ (by omega)
      ⟨by omega, by rw [sum_map_zero]; omega, by omega⟩
  rw [sum_map_zero] at hfills
  generalize forEach copyString s.low l u = t at *
  have htlow := hfills.low
  have hthigh := hfills.high
  refine ⟨?_, ?_, fun m hkeeps => ?_⟩
  · have htrans := hgrows.trans hfills.toGrows fun i hi hi' => .inr (.inl ⟨by omega, by omega⟩)
    rwa [Nat.zero_add, Nat.add_zero] at htrans
  · rw [← hword]
    exact word_congr fun i hi hi' => hfills.same (by omega) (by omega) (by omega)
  · exact hfills.array m (fun i hi hi' => hkeeps i (.inl ⟨by omega, by omega⟩)) fun i hi => hkeeps i (by omega)

theorem copyDevice_spec {args : Arguments} (hmid : s.low + 44 ≤ s.high) (hhigh : s.high < 4294967296) :
    Grows 0 0 (44 + 4 * args.configurations.length) 18 s (copyDevice k args s.low s) ∧
      (∀ i < 44, i < 36 ∨ 40 ≤ i → (copyDevice k args s.low s).mem (s.low + i) = k.defaults.getD i 0) ∧
      word (copyDevice k args s.low s).mem (s.low + 36) = s.high ∧
      bytes (copyDevice k args s.low s).mem s.high 18 = args.devicedescriptor := by
  have hdefaults := k.length_defaults
  have hdevice := args.length_device
  refine ⟨?_, fun i hi hi' => ?_, word_put hhigh, ?_⟩
  · have hgrows := ((((Grows.refl 0 0 s).takeLow (44 + 4 * args.configurations.length)).write s.low k.defaults
      fun i hi hi' => .inr (.inl ⟨hi, by simp only [takeLow_low]; omega⟩)).takeHigh 18).write s.high
      args.devicedescriptor fun i hi hi' => .inr (.inr ⟨hi, by
        simp only [takeHigh_high, write_high, takeLow_high]
        omega⟩)
    have hgrows' := hgrows.write (s.low + 36) (pointer s.high) fun i hi hi' => .inr (.inl ⟨by omega, by
      rw [length_pointer] at hi'
      simp only [write_low, takeHigh_low, takeLow_low]
      omega⟩)
    rwa [Nat.zero_add, Nat.zero_add] at hgrows'
  · have hput : (copyDevice k args s.low s).mem =
        put (put (put s.mem s.low k.defaults) s.high args.devicedescriptor) (s.low + 36) (pointer s.high) := rfl
    rw [hput, put_outside (by rw [length_pointer]; omega), put_below (by omega), put_inside (by omega)]
  · have hput : (copyDevice k args s.low s).mem =
        put (put (put s.mem s.low k.defaults) s.high args.devicedescriptor) (s.low + 36) (pointer s.high) := rfl
    rw [hput, bytes_put_disjoint (.inr (by rw [length_pointer]; omega)), ← hdevice, bytes_put]

theorem copy_instance {args : Arguments} {sz : Sizes} {buf : Nat} {mem : Memory} (h : Agree args sz)
    (hend : buf + (sz.size + sz.descsize) ≤ 4294967296) :
    Grows 0 0 sz.size sz.descsize ⟨mem, [], buf, buf + sz.size⟩ (copy k args sz buf mem) ∧
      InstanceAt buf (buf + (sz.size + sz.descsize)) k args sz.maxInterfaces buf (copy k args sz buf mem).mem := by
  have hsize := h.size
  have hdescsize := h.descsize
  obtain ⟨s0, hs0⟩ : ∃ s0 : Arena, s0 = ⟨mem, [], buf, buf + sz.size⟩ := ⟨_, rfl⟩
  have hlow0 : s0.low = buf := by rw [hs0]
  have hhigh0 : s0.high = buf + sz.size := by rw [hs0]
  obtain ⟨hdev, hdefaults, hdevice, hdevbytes⟩ := @copyDevice_spec s0 k args (by omega) (by omega)
  rw [hlow0] at hdev hdefaults hdevice hdevbytes
  rw [copy, ← hs0]
  generalize copyDevice k args buf s0 = s1 at *
  have hlow1 := hdev.low
  have hhigh1 := hdev.high
  -- the configurations
  have hconfigurations : Fills (ConfigurationAt buf (buf + (sz.size + sz.descsize)) k) (buf + 44)
      (flagged args.enableDebug args.configurations) _ _ s1
      (forEach (copyConfiguration k) (buf + 44) (flagged args.enableDebug args.configurations) s1) :=
    forEach_fills (fun p _ c s => copyConfiguration_puts hend p c s) _ (by rw [length_flagged]; omega)
      ⟨by omega, by omega, by omega⟩
  generalize forEach (copyConfiguration k) (buf + 44) (flagged args.enableDebug args.configurations) s1 =
    s2 at *
  have hlow2 := hconfigurations.low
  have hhigh2 := hconfigurations.high
  have hsame2 := fun i => @Grows.same _ _ _ _ _ _ i hconfigurations.toGrows
  rw [length_flagged] at hsame2
  have hgrows2 := hdev.trans hconfigurations.toGrows fun i hi hi' => .inr (.inl ⟨by omega, by
    rw [length_flagged] at hi'
    omega⟩)
  -- the strings
  obtain ⟨hstrings, hstringdescs, hstringsat⟩ := @copyStrings_spec buf (buf + (sz.size + sz.descsize)) s2
    args.stringdescriptors buf hend (by omega) (by omega) ⟨by omega, by omega, by omega⟩
  generalize copyStrings args.stringdescriptors buf s2 = s4 at *
  have hlow4 := hstrings.low
  have hhigh4 := hstrings.high
  have hsame4 := fun i => @Grows.same _ _ _ _ _ _ i hstrings
  have hgrows4 := hgrows2.trans hstrings fun i hi hi' => .inr (.inl ⟨by omega, by omega⟩)
  have hgrows5 := (hgrows4.takeLow (16 + sz.maxInterfaces)).write (buf + 12) (pointer s4.low)
    fun i hi hi' => .inr (.inl ⟨by omega, by
      rw [length_pointer] at hi'
      rw [takeLow_low]
      omega⟩)
  obtain ⟨s5, hs5⟩ : ∃ s5, s5 = (s4.takeLow (16 + sz.maxInterfaces)).write (buf + 12) (pointer s4.low) :=
    ⟨_, rfl⟩
  have hmem5 : s5.mem = put s4.mem (buf + 12) (pointer s4.low) := by rw [hs5]; rfl
  rw [← hs5] at hgrows5 ⊢
  have hsame5 : ∀ i, i < buf + 12 ∨ buf + 16 ≤ i → s5.mem i = s4.mem i := fun i hi => by
    rw [hmem5]
    exact put_outside (by rw [length_pointer]; omega)
  -- what was there before the configurations
  have hsame : ∀ i, buf ≤ i → i < buf + 40 ∨ (s0.high ≤ i ∧ i < s1.high) → i < buf + 12 ∨ buf + 16 ≤ i →
      s5.mem i = s1.mem i := fun i hi hi' hi'' => by
    rw [hsame5 i hi'', hsame4 i (by omega) (by omega) (by omega),
      hsame2 i (by omega) (by omega) (by omega)]
  have hdefault : ∀ i < 36, i < 12 ∨ 16 ≤ i → s5.mem (buf + i) = k.defaults.getD i 0 := fun i hi hi' => by
    rw [hsame _ (by omega) (by omega) (by omega), hdefaults i (by omega) (by omega)]
  have hstate : word s5.mem (buf + 12) = s4.low := by
    rw [hmem5]
    exact word_put (by omega)
  have hdevice' : word s5.mem (buf + 36) = s0.high := by
    rw [← hdevice]
    exact word_congr fun i hi hi' => hsame i (by omega) (by omega) (by omega)
  have hstrings' : word s5.mem (buf + 40) = s2.low := by
    rw [← hstringdescs]
    exact word_congr fun i hi hi' => hsame5 i (by omega)
  refine ⟨?_, ?_, ?_, ?_, ?_, ?_, ?_, ?_⟩
  · have hlow5 : s5.low = s4.low + (16 + sz.maxInterfaces) := by rw [hs5]; rfl
    have hhigh5 : s5.high = s4.high := by rw [hs5]; rfl
    exact ⟨by omega, by omega, hgrows5.touches⟩
  · have hlen : (k.defaults.take 12).length = 12 := by rw [List.length_take, k.length_defaults]; rfl
    refine bytes_eq_of hlen fun i hi => ?_
    rw [hdefault i (by omega) (.inl hi)]
    simp [List.getD_eq_getElem?_getD, hi]
  · rw [hstate]
    omega
  · have hlen : ((k.defaults.drop 16).take 20).length = 20 := by
      rw [List.length_take, List.length_drop, k.length_defaults]
      rfl
    refine bytes_eq_of hlen fun i hi => ?_
    rw [Nat.add_assoc, hdefault (16 + i) (by omega) (.inr (by omega))]
    simp [List.getD_eq_getElem?_getD, hi]
  · rw [hdevice']
    refine ⟨by omega, by rw [args.length_device]; omega, ?_⟩
    rw [args.length_device]
    have hbytes : bytes s5.mem s0.high 18 = bytes s1.mem s0.high 18 :=
      bytes_congr fun i hi hi' => hsame i (by omega) (by omega) (by omega)
    rw [hbytes, hdevbytes]
  · refine hconfigurations.array s5.mem (fun i hi hi' => ?_) fun i hi => ?_
    · rw [length_flagged] at hi'
      rw [hsame5 i (by omega), hsame4 i (by omega) (by omega) (by omega)]
    · rw [hsame5 i (by omega), hsame4 i (by omega) (by omega) (by omega)]
  · rw [hstrings']
    omega
  · rw [hstrings']
    exact hstringsat s5.mem fun i hi => hsame5 i (by omega)

/-- Whatever is installed, no write leaves the block, nothing else changes, and the whole instance is in
the block, with a place for the altsetting of every interface. -/
theorem install_copies {args : Arguments} {sz : Sizes} {malloc : Nat → Option Nat} {buf : Nat}
    (mem : Memory) (hsizes : sizes args = some sz) (hbuf : malloc (sz.size + sz.descsize) = some buf)
    (hend : buf + (sz.size + sz.descsize) ≤ 4294967296) :
    ∃ s, usbmanagerInstallCustom k malloc mem args = some (.installed buf s) ∧
      (∀ w ∈ s.log, ∀ i, w.1 ≤ i → i < w.1 + w.2 → buf ≤ i ∧ i < buf + (sz.size + sz.descsize)) ∧
      (∀ i, i < buf ∨ buf + (sz.size + sz.descsize) ≤ i → s.mem i = mem i) ∧
      InstanceAt buf (buf + (sz.size + sz.descsize)) k args sz.maxInterfaces buf s.mem ∧
      ∀ p ∈ flagged args.enableDebug args.configurations,
        p.2.items.length + (if p.1 then 1 else 0) ≤ sz.maxInterfaces := by
  have hagree := sizes_agree hsizes
  obtain ⟨hgrows, hinstance⟩ := @copy_instance k args sz buf mem hagree hend
  have hwithin : ∀ i, Within 0 0 ⟨mem, [], buf, buf + sz.size⟩ (copy k args sz buf mem) i →
      buf ≤ i ∧ i < buf + (sz.size + sz.descsize) := by
    intro i hi
    have hlow := hgrows.low
    have hhigh := hgrows.high
    unfold Within at hi
    simp only at hi hlow hhigh
    omega
  obtain ⟨l, hlog, hin⟩ := hgrows.touches.log
  refine ⟨copy k args sz buf mem, ?_, ?_, fun i hi => ?_, hinstance, hagree.interfaces⟩
  · rw [usbmanagerInstallCustom, hsizes, Option.map_some, hbuf]
  · intro w hw i hi hi'
    rw [hlog, List.nil_append] at hw
    exact hwithin i (hin w hw i hi hi')
  · refine hgrows.touches.mem i fun hmem => ?_
    have hblock := hwithin i hmem
    omega

/-- One configuration with an interface, an endpoint and a string, and the debug interface. -/
def oneInterface : Arguments where
  devicedescriptor := List.replicate 18 0
  configurations := [{
    fields := List.replicate 15 0
    items := [⟨List.replicate 11 0, [⟨List.replicate 11 0, [⟨List.replicate 16 0, rfl⟩], rfl, by decide⟩],
      rfl, by decide⟩]
    length_fields := rfl
    length_items := by decide
    descriptor := [9, 2, 25, 0, 1] ++ List.replicate 20 0
    header_le := by decide
    length_descriptor := rfl }]
  stringdescriptors := [⟨[4, 3, 9, 4], by decide, rfl⟩]
  enableDebug := true
  length_device := rfl

def zeroedDefaults : Kernel := ⟨List.replicate 44 0, rfl, 0x22000000, by decide⟩

theorem sizes_oneInterface : sizes oneInterface = some ⟨142, 56, 2⟩ := rfl

theorem install_copies_oneInterface :
    ∃ s, usbmanagerInstallCustom zeroedDefaults (fun _ => some 0x8000000) (fun _ => 0) oneInterface =
        some (.installed 0x8000000 s) ∧
      (∀ w ∈ s.log, ∀ i, w.1 ≤ i → i < w.1 + w.2 → 0x8000000 ≤ i ∧ i < 0x8000000 + (142 + 56)) ∧
      (∀ i, i < 0x8000000 ∨ 0x8000000 + (142 + 56) ≤ i → s.mem i = 0) ∧
      InstanceAt 0x8000000 (0x8000000 + (142 + 56)) zeroedDefaults oneInterface 2 0x8000000 s.mem ∧
      ∀ p ∈ flagged true oneInterface.configurations, p.2.items.length + (if p.1 then 1 else 0) ≤ 2 :=
  install_copies _ sizes_oneInterface rfl (by decide)

end Install
end Usb
end Freemyipod
