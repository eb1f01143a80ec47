import FrontServer.PcapHandler
import FrontServer.Lemmas.Utils

/-!
# The address of an interface

`GetInterfaceIP` reads every address record of the device as an IPv4 one and keeps the last it reads, whatever its family.
-/

namespace FrontServer

/-- A record is long enough for the address that is read. -/
theorem SockAddr.sAddr_eq_ok (a : SockAddr) : ∃ s, a.sAddr = .ok s := by
  have hread : ∀ i < 14, ∃ b, readAt a.saData (i : Nat) = .ok b := by
    intro i hi
    have hsize := a.size
    exact ⟨a.saData[i], readAt_eq_ok.mpr ⟨by omega, by simp⟩⟩
  obtain ⟨b₂, h₂⟩ := hread 2 (by decide)
  obtain ⟨b₃, h₃⟩ := hread 3 (by decide)
  obtain ⟨b₄, h₄⟩ := hread 4 (by decide)
  obtain ⟨b₅, h₅⟩ := hread 5 (by decide)
  unfold sAddr ntohlAt ntohsAt
  rw [h₂, h₃, h₄, h₅]
  exact ⟨_, rfl⟩

namespace GetInterfaceIP

/-- The last of the records decides. -/
theorem addressLoop_eq (addresses : List SockAddr) (ip : Bytes) :
    addressLoop addresses ip =
      match addresses.getLast? with
      | none => .ok ip
      | some last => Utils.long2IP <$> last.sAddr := by
  induction addresses generalizing ip with
  | nil => rfl
  | cons a as ih =>
    obtain ⟨s, hs⟩ := a.sAddr_eq_ok
    rw [addressLoop, hs, ok_bind, ih, List.getLast?_cons]
    cases as.getLast? with
    | none =>
      show Except.ok (Utils.long2IP s) = Utils.long2IP <$> a.sAddr
      rw [hs]
      rfl
    | some last => rfl

/-- The first device of the name decides. -/
theorem deviceLoop_eq {interface : Bytes} {devs : List PcapIf} {dev : PcapIf}
    (hdev : devs.find? (fun p => p.name = interface) = some dev) (ip : Bytes) :
    deviceLoop interface devs ip = (fun ip => (true, ip)) <$> addressLoop dev.addresses ip := by
  induction devs with
  | nil => cases hdev
  | cons p next ih =>
    rw [deviceLoop]
    by_cases hname : p.name = interface
    · rw [List.find?_cons_of_pos (by simpa using hname)] at hdev
      cases hdev
      rw [if_pos hname]
      rfl
    · rw [List.find?_cons_of_neg (by simpa using hname)] at hdev
      rw [if_neg hname]
      exact ih hdev

/-- For a device with an IPv4 address, a call that returns true gives one of the device's IPv4 addresses exactly when the four bytes
read of the last record are one: where that record is an IPv4 record, or its bytes happen to be the same. -/
theorem interface_ip_iff (devs : List PcapIf) (interface ip : Bytes) (dev : PcapIf)
    (hdev : devs.find? (fun p => p.name = interface) = some dev) (hinet : ∃ a ∈ dev.addresses, a.saFamily = afInet) :
    (∀ out, getInterfaceIP (some devs) interface ip = .ok (true, out) →
        ∃ a ∈ dev.addresses, a.saFamily = afInet ∧ Utils.long2IP <$> a.sAddr = .ok out) ↔
      ∃ last, dev.addresses.getLast? = some last ∧ ∃ a ∈ dev.addresses, a.saFamily = afInet ∧ a.sAddr = last.sAddr := by
  obtain ⟨a₀, ha₀, -⟩ := hinet
  obtain ⟨last, hlast⟩ : ∃ last, dev.addresses.getLast? = some last :=
    ⟨_, List.getLast?_eq_some_getLast (List.ne_nil_of_mem ha₀)⟩
  obtain ⟨s, hs⟩ := last.sAddr_eq_ok
  have hcall : getInterfaceIP (some devs) interface ip = .ok (true, Utils.long2IP s) := by
    rw [getInterfaceIP, deviceLoop_eq hdev, addressLoop_eq, hlast]
    dsimp only
    rw [hs]
    rfl
  constructor
  · intro h
    obtain ⟨a, ha, hfamily, hout⟩ := h _ hcall
    refine ⟨last, hlast, a, ha, hfamily, ?_⟩
    obtain ⟨s', hs'⟩ := a.sAddr_eq_ok
    rw [hs'] at hout ⊢
    rw [hs, Utils.long2IP_injective (Except.ok.inj hout)]
  · rintro ⟨last', hlast', a, ha, hfamily, hsame⟩ out hout
    cases hlast.symm.trans hlast'
    cases hcall.symm.trans hout
    refine ⟨a, ha, hfamily, ?_⟩
    rw [hsame, hs]
    rfl

/-- A device with the IPv4 address 10.0.0.2 and, behind it, an IPv6 record. -/
def dualStack : PcapIf where
  name := ascii "eth0"
  addresses :=
    [⟨afInet, [0, 0, 10, 0, 0, 2, 0, 0, 0, 0, 0, 0, 0, 0], by decide⟩,
      ⟨10, [0, 0, 0, 0, 0, 0, 0xfe, 0x80, 0, 0, 0, 0, 0, 0, 2, 0x42, 0xac, 0xff, 0xfe, 0x11, 0, 2, 2, 0, 0, 0], by decide⟩]

/-- The address given is that of neither: it is the flow information of the IPv6 record. -/
theorem dualStack_not_inet :
    ¬∀ (devs : List PcapIf) (interface ip : Bytes) (dev : PcapIf), devs.find? (fun p => p.name = interface) = some dev →
        (∃ a ∈ dev.addresses, a.saFamily = afInet) → ∀ out, getInterfaceIP (some devs) interface ip = .ok (true, out) →
          ∃ a ∈ dev.addresses, a.saFamily = afInet ∧ Utils.long2IP <$> a.sAddr = .ok out := by
  intro h
  obtain ⟨a, ha, hfamily, hout⟩ := h [dualStack] (ascii "eth0") [] dualStack (by rfl) (by decide) (ascii "0.0.0.0") (by rfl)
  rcases List.mem_pair.mp ha with rfl | rfl
  · exact absurd (Except.ok.inj hout) (by decide)
  · exact absurd hfamily (by decide)

theorem interface_ip_iff_dualStack :
    (∀ out, getInterfaceIP (some [dualStack]) (ascii "eth0") [] = .ok (true, out) →
        ∃ a ∈ dualStack.addresses, a.saFamily = afInet ∧ Utils.long2IP <$> a.sAddr = .ok out) ↔
      ∃ last, dualStack.addresses.getLast? = some last ∧
        ∃ a ∈ dualStack.addresses, a.saFamily = afInet ∧ a.sAddr = last.sAddr :=
  interface_ip_iff [dualStack] (ascii "eth0") [] dualStack (by rfl) (by decide)

end GetInterfaceIP

end FrontServer
