import Mcpmesh.Dial.Address
import Mathlib.Data.List.Pairwise

/-!
# Mcpmesh.Dial.LookupHygiene

The filter over what an address lookup resolves
(`node/src/daemon/lookup_hygiene.rs`).

A resolved item loses every address that cannot be a peer.  `filterItem` takes
all IP addresses out of the endpoint's data and appends the ones it keeps, so the
relay and custom addresses come before them whatever the order was: the order of
what is kept is that of the item exactly when no IP address that is kept stood
before a relay or a custom address.
-/

namespace Mcpmesh.Dial

/-! ## lists in two kinds -/

/-- Moving what satisfies `p` behind the rest changes nothing exactly when it
stood there. -/
theorem filter_not_append_filter_eq_iff {α : Type*} {p : α → Bool} {l : List α} :
    (l.filter fun a => !p a) ++ l.filter p = l ↔ l.Pairwise fun a b => p a → p b := by
  induction l with
  | nil => simp
  | cons a l ih =>
      rw [List.pairwise_cons]
      cases ha : p a with
      | false =>
          rw [List.filter_cons_of_pos (by simp [ha]), List.filter_cons_of_neg (by simp [ha]),
            List.cons_append, List.cons_inj_right, ih]
          simp
      | true =>
          rw [List.filter_cons_of_neg (by simp [ha]), List.filter_cons_of_pos ha]
          constructor
          · intro heq
            -- nothing of the other kind can stand before `a`
            have hnone : l.filter (fun a => !p a) = [] := by
              cases hf : l.filter (fun a => !p a) with
              | nil => rfl
              | cons b bs =>
                  rw [hf, List.cons_append, List.cons.injEq] at heq
                  have hb := List.of_mem_filter (hf ▸ List.mem_cons_self : b ∈ l.filter _)
                  rw [heq.1, ha] at hb
                  exact absurd hb (by decide)
            have hall : ∀ b ∈ l, p b = true := by
              intro b hb
              simpa using List.filter_eq_nil_iff.mp hnone b hb
            exact ⟨fun b hb _ => hall b hb,
              List.pairwise_of_forall_mem_list fun _ _ b hb _ => hall b hb⟩
          · rintro ⟨hafter, -⟩
            have hall : ∀ b ∈ l, p b = true := fun b hb => hafter b hb rfl
            rw [List.filter_eq_self.mpr hall, List.filter_eq_nil_iff.mpr]
            · rfl
            · intro b hb
              simp [hall b hb]

/-! ## the IPv4-mapped form -/

/-- Two octets as a segment. -/
def octetSegment (high low : UInt8) : UInt16 := .ofNat (high.toNat * 256 + low.toNat)

/-- `Ipv4Addr::to_ipv6_mapped`. -/
def Ipv4.toIpv6Mapped : List.Vector UInt8 4 → List.Vector UInt16 8
  | ⟨[a, b, c, d], _⟩ =>
      ⟨[0, 0, 0, 0, 0, 0xffff, octetSegment a b, octetSegment c d], rfl⟩

@[simp] theorem segmentOctets_octetSegment (high low : UInt8) :
    segmentOctets (octetSegment high low) = [high, low] := by
  have hhigh := high.toNat_lt
  have hlow := low.toNat_lt
  have hword : (octetSegment high low).toNat = high.toNat * 256 + low.toNat := by
    rw [octetSegment, UInt16.toNat_ofNat']
    omega
  have hdiv : (high.toNat * 256 + low.toNat) / 256 = high.toNat := by omega
  have hmod : (high.toNat * 256 + low.toNat) % 256 = low.toNat := by omega
  rw [segmentOctets, hword, hdiv]
  simp only [List.cons.injEq, and_true]
  refine ⟨UInt8.ofNat_toNat, UInt8.toNat_inj.mp ?_⟩
  rw [UInt8.toNat_ofNat', hmod]

/-- The mapped form of an address is canonically that address. -/
theorem toCanonical_toIpv6Mapped (octets : List.Vector UInt8 4) :
    (IpAddr.v6 (Ipv4.toIpv6Mapped octets)).toCanonical = .v4 octets := by
  match octets with
  | ⟨[a, b, c, d], _⟩ => simp [Ipv4.toIpv6Mapped, IpAddr.toCanonical]

/-- Only the canonical address and the port decide. -/
theorem isDialableAddr_congr {ip ip' : IpAddr} (h : ip.toCanonical = ip'.toCanonical)
    (port : UInt16) : isDialableAddr (.ip ⟨ip, port⟩) = isDialableAddr (.ip ⟨ip', port⟩) := by
  simp only [isDialableAddr, h]

theorem isDialableAddr_toIpv6Mapped (octets : List.Vector UInt8 4) (port : UInt16) :
    isDialableAddr (.ip ⟨.v6 (Ipv4.toIpv6Mapped octets), port⟩) =
      isDialableAddr (.ip ⟨.v4 octets, port⟩) :=
  isDialableAddr_congr (toCanonical_toIpv6Mapped octets) port

/-! ## resolved items -/

def TransportAddr.isIp : TransportAddr → Bool
  | .ip _ => true
  | .relay _ | .custom _ _ => false

theorem isDialableAddr_of_not_isIp {a : TransportAddr} (h : a.isIp = false) :
    isDialableAddr a = true := by
  cases a with
  | ip => cases h
  | relay => rfl
  | custom => rfl

/-- `iroh`'s `EndpointData`, which is not part of this code. -/
structure EndpointDataOps (Data UserData : Type) where
  addrs : Data → List TransportAddr
  userData : Data → Option UserData
  clearIpAddrs : Data → Data
  addAddrs : Data → List TransportAddr → Data

/-- What the code relies on of `EndpointData`: its addresses are an ordered list,
to which `add_addrs` appends. -/
structure EndpointDataOps.Ordered {Data UserData : Type} (E : EndpointDataOps Data UserData) :
    Prop where
  addrs_clearIpAddrs : ∀ d, E.addrs (E.clearIpAddrs d) = (E.addrs d).filter fun a => !a.isIp
  addrs_addAddrs : ∀ d as, E.addrs (E.addAddrs d as) = E.addrs d ++ as
  userData_clearIpAddrs : ∀ d, E.userData (E.clearIpAddrs d) = E.userData d
  userData_addAddrs : ∀ d as, E.userData (E.addAddrs d as) = E.userData d

structure EndpointInfo (Data : Type) where
  endpointId : EndpointId
  data : Data

structure Item (Data : Type) where
  endpointInfo : EndpointInfo Data
  provenance : String
  lastUpdated : Option UInt64

section Filter

variable {Data UserData : Type} (E : EndpointDataOps Data UserData)

/-- Strip a resolved item of every address that can never be a unicast QUIC peer. -/
def filterItem (item : Item Data) : Item Data :=
  let id := item.endpointInfo.endpointId
  let data := item.endpointInfo.data
  let kept := (E.addrs data).filter isDialableAddr
  let data := E.clearIpAddrs data
  let data := E.addAddrs data (kept.filter TransportAddr.isIp)
  { endpointInfo := { endpointId := id, data }
    provenance := item.provenance
    lastUpdated := item.lastUpdated }

/-- `HygienicLookup::resolve`, on the stream of the wrapped service. -/
def hygienicResolve {ε : Type} (inner : EndpointId → Option (List (Except ε (Item Data))))
    (endpointId : EndpointId) : Option (List (Except ε (Item Data))) :=
  (inner endpointId).map fun stream => stream.map fun r => r.map (filterItem E)

/-- All that can be read of an item. -/
structure Reading (UserData : Type) where
  endpointId : EndpointId
  addrs : List TransportAddr
  userData : Option UserData
  provenance : String
  lastUpdated : Option UInt64
  deriving DecidableEq

def Item.reading (item : Item Data) : Reading UserData :=
  { endpointId := item.endpointInfo.endpointId
    addrs := E.addrs item.endpointInfo.data
    userData := E.userData item.endpointInfo.data
    provenance := item.provenance
    lastUpdated := item.lastUpdated }

variable {E} {item : Item Data}

/-- The relay and custom addresses, then the IP addresses that are kept. -/
theorem reading_filterItem (hE : E.Ordered) : (filterItem E item).reading E =
    { item.reading E with
      addrs := ((item.reading E).addrs.filter fun a => !a.isIp) ++
        ((item.reading E).addrs.filter isDialableAddr).filter TransportAddr.isIp } := by
  simp [Item.reading, filterItem, hE.addrs_addAddrs, hE.addrs_clearIpAddrs,
    hE.userData_addAddrs, hE.userData_clearIpAddrs]

/-- Of relay and custom addresses nothing is dropped, so that it is the kept
addresses that are parted in two kinds. -/
theorem filter_not_isIp (l : List TransportAddr) :
    (l.filter fun a => !a.isIp) = (l.filter isDialableAddr).filter fun a => !a.isIp := by
  rw [List.filter_filter]
  refine List.filter_congr fun a _ => ?_
  cases ha : a.isIp with
  | false => simp [isDialableAddr_of_not_isIp ha]
  | true => simp

theorem mem_filterItem_iff (hE : E.Ordered) {a : TransportAddr} :
    a ∈ ((filterItem E item).reading E).addrs ↔
      a ∈ (item.reading E).addrs ∧ isDialableAddr a = true := by
  rw [reading_filterItem hE, List.mem_append, filter_not_isIp, List.mem_filter, List.mem_filter,
    List.mem_filter]
  cases a.isIp <;> simp

/-- The kept addresses are parted in place exactly when no kept IP address stood
before a relay or a custom address. -/
theorem reading_filterItem_iff (hE : E.Ordered) :
    (filterItem E item).reading E =
        { item.reading E with addrs := (item.reading E).addrs.filter isDialableAddr } ↔
      (item.reading E).addrs.Pairwise fun a b => isDialableAddr a → a.isIp → b.isIp := by
  rw [reading_filterItem hE, Reading.mk.injEq, filter_not_isIp, filter_not_append_filter_eq_iff,
    List.pairwise_filter]
  constructor
  · rintro ⟨-, hpair, -⟩
    refine hpair.imp fun {a b} hab ha hip => ?_
    cases hb : b.isIp with
    | false => simpa [hb] using hab ha (isDialableAddr_of_not_isIp hb) hip
    | true => rfl
  · intro hpair
    exact ⟨rfl, hpair.imp fun {a b} hab ha _ hip => hab ha hip, rfl, rfl, rfl⟩

/-- What was filtered once stays as it is: its IP addresses are the last, and all
can be peers. -/
theorem filterItem_filterItem (hE : E.Ordered) :
    (filterItem E (filterItem E item)).reading E = (filterItem E item).reading E := by
  have hpeers : ((filterItem E item).reading E).addrs.filter isDialableAddr =
      ((filterItem E item).reading E).addrs :=
    List.filter_eq_self.mpr fun a ha => ((mem_filterItem_iff hE).mp ha).2
  have hlast : ((filterItem E item).reading E).addrs.Pairwise
      fun a b => isDialableAddr a → a.isIp → b.isIp := by
    rw [reading_filterItem hE]
    refine List.pairwise_append.mpr ⟨?_, ?_, ?_⟩
    · refine List.pairwise_of_forall_mem_list fun a ha b _ _ hip => ?_
      exact absurd (List.mem_filter.mp ha).2 (by simp [hip])
    · exact List.pairwise_of_forall_mem_list fun a _ b hb _ _ => (List.mem_filter.mp hb).2
    · exact fun a _ b hb _ _ => (List.mem_filter.mp hb).2
  rw [(reading_filterItem_iff hE).mpr hlast, hpeers]

/-- An item keeps the order of its addresses when none that is kept is an IP
address before one that is not. -/
theorem filterItem_in_order_iff (hE : E.Ordered) (item : Item Data) :
    ((filterItem E item).reading E =
          { item.reading E with addrs := (item.reading E).addrs.filter isDialableAddr } ∧
        (filterItem E (filterItem E item)).reading E = (filterItem E item).reading E ∧
        ∀ octets port, isDialableAddr (.ip ⟨.v6 (Ipv4.toIpv6Mapped octets), port⟩) =
          isDialableAddr (.ip ⟨.v4 octets, port⟩)) ↔
      (item.reading E).addrs.Pairwise fun a b => isDialableAddr a → a.isIp → b.isIp := by
  rw [← reading_filterItem_iff hE]
  constructor
  · rintro ⟨horder, -, -⟩
    exact horder
  · intro horder
    exact ⟨horder, filterItem_filterItem hE, isDialableAddr_toIpv6Mapped⟩

/-- Every address the wrapped service yields can be a peer, whatever it resolved. -/
theorem isDialableAddr_of_hygienicResolve (hE : E.Ordered) {ε : Type}
    {inner : EndpointId → Option (List (Except ε (Item Data)))} {endpointId : EndpointId}
    {stream : List (Except ε (Item Data))}
    (hresolve : hygienicResolve E inner endpointId = some stream) (hitem : .ok item ∈ stream)
    {a : TransportAddr} (ha : a ∈ (item.reading E).addrs) : isDialableAddr a = true := by
  obtain ⟨resolved, -, rfl⟩ := Option.map_eq_some_iff.mp hresolve
  obtain ⟨r, -, hr⟩ := List.mem_map.mp hitem
  cases r with
  | error e => cases hr
  | ok original =>
      cases hr
      exact ((mem_filterItem_iff hE).mp ha).2

end Filter

/-! ## a direct address before the relay -/

namespace DirectFirst

/-- Endpoint data as a list of addresses. -/
def listData : EndpointDataOps (List TransportAddr × Option String) String where
  addrs := Prod.fst
  userData := Prod.snd
  clearIpAddrs d := (d.1.filter fun a => !a.isIp, d.2)
  addAddrs d as := (d.1 ++ as, d.2)

theorem listData_ordered : listData.Ordered where
  addrs_clearIpAddrs _ := rfl
  addrs_addAddrs _ _ := rfl
  userData_clearIpAddrs _ := rfl
  userData_addAddrs _ _ := rfl

def relay : TransportAddr := .relay "https://relay.example"

/-- `192.168.1.5:4433`. -/
def lan : TransportAddr := .ip ⟨.v4 ⟨[192, 168, 1, 5], rfl⟩, 4433⟩

/-- `224.0.0.1:1900`. -/
def group : TransportAddr := .ip ⟨.v4 ⟨[224, 0, 0, 1], rfl⟩, 1900⟩

def item (addrs : List TransportAddr) : Item (List TransportAddr × Option String) :=
  { endpointInfo := { endpointId := List.Vector.replicate 32 77, data := (addrs, some "hello") }
    provenance := "test"
    lastUpdated := some 42 }

end DirectFirst

open DirectFirst in
/-- A relay that an endpoint listed after its own address is moved before it. -/
theorem filterItem_moves_relay : listData.Ordered ∧
    ((filterItem listData (item [lan, relay])).reading listData).addrs = [relay, lan] ∧
    (((item [lan, relay]).reading listData).addrs.filter isDialableAddr) = [lan, relay] ∧
    ¬ ((filterItem listData (item [lan, relay])).reading listData =
          { (item [lan, relay]).reading listData with
            addrs := ((item [lan, relay]).reading listData).addrs.filter isDialableAddr } ∧
        (filterItem listData (filterItem listData (item [lan, relay]))).reading listData =
          (filterItem listData (item [lan, relay])).reading listData ∧
        ∀ octets port, isDialableAddr (.ip ⟨.v6 (Ipv4.toIpv6Mapped octets), port⟩) =
          isDialableAddr (.ip ⟨.v4 octets, port⟩)) := by
  refine ⟨listData_ordered, by decide, by decide, ?_⟩
  rintro ⟨horder, -, -⟩
  exact absurd (congrArg Reading.addrs horder) (by decide)

open DirectFirst in
theorem filterItem_relay_first : listData.Ordered ∧
    ((item [relay, group, lan]).reading listData).addrs.Pairwise
        (fun a b => isDialableAddr a → a.isIp → b.isIp) ∧
    ((filterItem listData (item [relay, group, lan])).reading listData =
          { (item [relay, group, lan]).reading listData with
            addrs := ((item [relay, group, lan]).reading listData).addrs.filter isDialableAddr } ∧
        (filterItem listData (filterItem listData (item [relay, group, lan]))).reading listData =
          (filterItem listData (item [relay, group, lan])).reading listData ∧
        ∀ octets port, isDialableAddr (.ip ⟨.v6 (Ipv4.toIpv6Mapped octets), port⟩) =
          isDialableAddr (.ip ⟨.v4 octets, port⟩)) :=
  ⟨listData_ordered, by decide,
    (filterItem_in_order_iff listData_ordered (item [relay, group, lan])).mpr (by decide)⟩

end Mcpmesh.Dial
