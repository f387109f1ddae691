import FPGAMario.UsbEnumeration

/-! What the chip finds when a list is started: a chain of transfer descriptors that make up one
control transfer, or one poll. -/

namespace FPGAMario

open Interact

namespace Driver

abbrev pidOut : BitVec 16 := 0x1#16
abbrev pidIn : BitVec 16 := 0x9#16
abbrev pidSetup : BitVec 16 := 0xD#16

/-- A transfer descriptor: where the data is, how much, for whom, `DATA0` or `DATA1`, and where
the next descriptor is. -/
structure Td where
  place : BitVec 16
  buffer : BitVec 16
  length : BitVec 16
  token : BitVec 16
  control : BitVec 16
  retries : BitVec 16
  next : BitVec 16
  deriving DecidableEq, Inhabited, Repr

namespace Td

def pid (td : Td) : BitVec 16 := td.token >>> 4 &&& 0xF#16
def endpoint (td : Td) : BitVec 16 := td.token &&& 0xF#16
def device (td : Td) : BitVec 16 := td.token >>> 8
def toggle (td : Td) : Bool := td.control.getLsbD 6

def read (memory : BitVec 16 → Option (BitVec 16)) (place : BitVec 16) : Option Td := do
  let buffer ← memory place
  let length ← memory (place + 2#16)
  let token ← memory (place + 4#16)
  let control ← memory (place + 6#16)
  let retries ← memory (place + 8#16)
  let next ← memory (place + 10#16)
  pure { place, buffer, length, token, control, retries, next }

def spans (td : Td) : List (Nat × Nat) :=
  (td.place.toNat, td.place.toNat + 12) ::
    if td.length = 0#16 then [] else [(td.buffer.toNat, td.buffer.toNat + td.length.toNat)]

end Td

/-- Follows the descriptors up to the one without a next one. -/
def chain (memory : BitVec 16 → Option (BitVec 16)) : Nat → BitVec 16 → Option (List Td)
  | 0, _ => none
  | fuel + 1, place => do
      let td ← Td.read memory place
      if td.next = 0#16 then pure [td]
      else do
        let rest ← chain memory fuel td.next
        pure (td :: rest)

def Apart (tds : List Td) : Prop :=
  (tds.flatMap Td.spans).Pairwise (fun x y => x.2 ≤ y.1 ∨ y.2 ≤ x.1) ∧
    ∀ span ∈ tds.flatMap Td.spans, 0x0500 ≤ span.1 ∧ span.2 ≤ 0x05C0

def alternating : Nat → List Bool
  | 0 => []
  | n + 1 => true :: (alternating n).map not

/-- A control transfer: the request, the data that it asks for, and an empty packet the other
way. -/
structure ControlTransfer (memory : BitVec 16 → Option (BitVec 16)) (device : BitVec 16)
    (setup : Td) (data : List Td) (status : Td) : Prop where
  request : setup.pid = pidSetup ∧ setup.length = 8#16 ∧ setup.toggle = false
  answer : ∀ td ∈ data, td.pid = pidIn
  asked : ∃ wLength ∈ memory (setup.buffer + 6#16),
    (data.map fun td => td.length.toNat).sum ≤ wLength.toNat
  toggles : data.map Td.toggle = alternating data.length
  handshake : status.pid = (if data = [] then pidIn else pidOut) ∧ status.length = 0#16 ∧
    status.toggle = true
  addressed : ∀ td ∈ setup :: data ++ [status], td.device = device ∧ td.endpoint = 0#16
  apart : Apart (setup :: data ++ [status])

instance (tds : List Td) : Decidable (Apart tds) := inferInstanceAs (Decidable (_ ∧ _))

def wordAt (list : List (BitVec 16)) (address : BitVec 16) : Option (BitVec 16) :=
  if (address - listAddress).toNat % 2 = 0 then list[(address - listAddress).toNat / 2]? else none

section Memory

variable {memory larger : BitVec 16 → Option (BitVec 16)}

theorem Td.read_mono (included : ∀ a word, memory a = some word → larger a = some word)
    {place : BitVec 16} {td : Td} (found : Td.read memory place = some td) :
    Td.read larger place = some td := by
  simp only [Td.read, Option.bind_eq_bind, Option.bind_eq_some_iff] at found ⊢
  rcases found with ⟨buffer, h0, length, h1, token, h2, control, h3, retries, h4, next, h5, made⟩
  exact ⟨buffer, included _ _ h0, length, included _ _ h1, token, included _ _ h2, control,
    included _ _ h3, retries, included _ _ h4, next, included _ _ h5, made⟩

theorem chain_mono (included : ∀ a word, memory a = some word → larger a = some word)
    {fuel : Nat} {place : BitVec 16} {tds : List Td} (found : chain memory fuel place = some tds) :
    chain larger fuel place = some tds := by
  induction fuel generalizing place tds with
  | zero => exact absurd found (Option.some_ne_none tds).symm
  | succ fuel ih =>
      simp only [chain, Option.bind_eq_bind, Option.bind_eq_some_iff] at found ⊢
      rcases found with ⟨td, read, rest⟩
      refine ⟨td, Td.read_mono included read, ?_⟩
      split at rest
      case isTrue last => rw [if_pos last, rest]
      case isFalse more =>
        rcases Option.bind_eq_some_iff.mp rest with ⟨others, later, made⟩
        rw [if_neg more, Option.bind_eq_some_iff]
        exact ⟨others, ih later, made⟩

theorem ControlTransfer.mono (included : ∀ a word, memory a = some word → larger a = some word)
    {device : BitVec 16} {setup status : Td} {data : List Td}
    (transfer : ControlTransfer memory device setup data status) :
    ControlTransfer larger device setup data status := by
  rcases transfer.asked with ⟨wLength, found, enough⟩
  exact { transfer with asked := ⟨wLength, included _ _ found, enough⟩ }

end Memory

theorem word_place (address : BitVec 16) (even : (address - listAddress).toNat % 2 = 0) :
    listAddress + 2#16 * BitVec.ofNat 16 ((address - listAddress).toNat / 2) = address := by
  have back : listAddress + (address - listAddress) = address := by bv_omega
  calc listAddress + 2#16 * BitVec.ofNat 16 ((address - listAddress).toNat / 2) =
        listAddress + BitVec.ofNat 16 (2 * ((address - listAddress).toNat / 2)) := by
          rw [BitVec.ofNat_mul]
    _ = listAddress + BitVec.ofNat 16 (address - listAddress).toNat := by
          rw [Nat.mul_div_cancel' (Nat.dvd_of_mod_eq_zero even)]
    _ = listAddress + (address - listAddress) := by rw [BitVec.ofNat_toNat, BitVec.setWidth_eq]
    _ = address := back

theorem Progress.Carries.wordAt {p : Progress} {list : List (BitVec 16)} (carried : p.Carries list)
    (address word : BitVec 16) (found : wordAt list address = some word) :
    p.words address = some word := by
  rw [Driver.wordAt] at found
  split at found
  case isTrue even =>
    rcases List.getElem?_eq_some_iff.mp found with ⟨bound, same⟩
    have place := word_place address even
    have there := carried _ bound
    rw [place] at there
    rw [there]
    exact congrArg some same
  case isFalse => exact absurd found (Option.some_ne_none word).symm

namespace Stage

def device : Stage → BitVec 16
  | setAddress => 0#16
  | _ => 2#16

/-- Where the packets of the answer go, and how long they are. -/
def packets : Stage → List (BitVec 16 × BitVec 16)
  | getDeviceDesc1 => [(0x052C#16, 8#16)]
  | getDeviceDesc2 => [(0x0544#16, 8#16), (0x054C#16, 8#16), (0x0554#16, 2#16)]
  | getConfigDesc1 => [(0x0544#16, 8#16), (0x054C#16, 1#16)]
  | getConfigDesc2 =>
      [(0x055C#16, 8#16), (0x0564#16, 8#16), (0x056C#16, 8#16), (0x0574#16, 8#16),
        (0x057C#16, 2#16)]
  | getHidDesc => [(0x0544#16, 8#16)]
  | getReportDesc =>
      [(0x0580#16, 8#16), (0x0588#16, 8#16), (0x0590#16, 8#16), (0x0598#16, 8#16),
        (0x05A0#16, 8#16), (0x05A8#16, 8#16), (0x05B0#16, 8#16), (0x05B8#16, 3#16)]
  | _ => []

def setup (stage : Stage) : Td :=
  ⟨0x0500#16, 0x050C#16, 8#16, if stage = setAddress then 0x00D0#16 else 0x02D0#16, 0x0001#16,
    0x0013#16, 0x0514#16⟩

def packetTds : BitVec 16 → Bool → List (BitVec 16 × BitVec 16) → List Td
  | _, _, [] => []
  | place, toggle, (buffer, length) :: rest =>
      ⟨place, buffer, length, 0x0290#16, if toggle then 0x0041#16 else 0x0001#16, 0x0013#16,
        place + 12#16⟩ :: packetTds (place + 12#16) (!toggle) rest

def data (stage : Stage) : List Td := packetTds 0x0514#16 true stage.packets

def handshake (stage : Stage) : Td :=
  ⟨0x0514#16 + 12#16 * BitVec.ofNat 16 stage.packets.length, 0#16, 0#16,
    if stage = setAddress then 0x0090#16 else if stage.packets = [] then 0x0290#16 else 0x0210#16,
    0x0041#16, 0x0013#16, 0#16⟩

theorem chain_list (stage : Stage) : chain (wordAt stage.list) 16 listAddress =
    some (stage.setup :: stage.data ++ [stage.handshake]) := by
  cases stage <;> decide +kernel

theorem controlTransfer (stage : Stage) :
    ControlTransfer (wordAt stage.list) stage.device stage.setup stage.data stage.handshake where
  request := by cases stage <;> decide
  answer := by cases stage <;> decide
  asked := by cases stage <;> exact ⟨_, rfl, by decide⟩
  toggles := by cases stage <;> decide
  handshake := by cases stage <;> decide
  addressed := by cases stage <;> decide
  apart := by cases stage <;> decide +kernel

end Stage

structure Poll (size : BitVec 8) (td : Td) : Prop where
  token : td.pid = pidIn ∧ td.endpoint = 1#16 ∧ td.device = 2#16
  buffer : td.buffer = 0x051C#16
  length : td.length = 0x000F#16 &&& size.setWidth 16
  apart : Apart [td]

def pollTd (toggle size : BitVec 8) : Td :=
  ⟨0x0500#16, 0x051C#16, 0x000F#16 &&& size.setWidth 16, 0x0291#16,
    if toggle % 2#8 ≠ 0#8 then 0x0001#16 else 0x0041#16, 0x0013#16, 0#16⟩

theorem chain_pollList (toggle size : BitVec 8) :
    chain (wordAt (pollList toggle size)) 16 listAddress = some [pollTd toggle size] := rfl

theorem poll_pollTd (toggle size : BitVec 8) : Poll size (pollTd toggle size) := by
  have short : 15 &&& size.toNat % 65536 ≤ 15 := Nat.and_le_left
  have token : (0x0291#16 >>> 4 &&& 0xF#16 : BitVec 16) = pidIn ∧ 0x0291#16 &&& 0xF#16 = 1#16 ∧
      (0x0291#16 >>> 8 : BitVec 16) = 2#16 := by decide
  refine ⟨token, rfl, rfl, ?_⟩
  by_cases empty : 0x000F#16 &&& size.setWidth 16 = 0#16
  · simp [Apart, Td.spans, pollTd, empty]
  · simp [Apart, Td.spans, pollTd, empty]
    omega

section Runs

variable {answers : Nat → Answer Request Reply} {address : BitVec 16} {n : Nat}

end Runs

end Driver

end FPGAMario
