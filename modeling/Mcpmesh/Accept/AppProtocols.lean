import Mcpmesh.Lib.AssocMap
import Mcpmesh.Lib.Run
import Mcpmesh.Roster.Sign

/-!
# Mcpmesh.Accept.AppProtocols

The ALPNs of the daemon, and those an embedder registers
(`node/src/daemon/accept.rs`, `node/src/daemon.rs`, `node/src/daemon/boot.rs`).

`set_alpns` replaces the whole set that the endpoint advertises, so a
registration first puts its handler in the map, and then advertises what was
bound at boot together with every key that it then finds in the map.
Registrations may overlap.
-/

namespace Mcpmesh

open Lib

abbrev Alpn := List UInt8

/-! ## the daemon's own -/

def alpnMcp : Alpn := utf8 "mcpmesh/mcp/1"

def alpnPair : Alpn := utf8 "mcpmesh/pair/1"

def alpnPing : Alpn := utf8 "mcpmesh/ping/1"

def appBlobAlpn : Alpn := utf8 "mcpmesh/blob/1"

/-- `iroh_gossip::ALPN`. -/
def gossipAlpn : Alpn := utf8 "/iroh-gossip/1"

/-- `iroh_blobs::ALPN`. -/
def blobAlpn : Alpn := utf8 "/iroh-bytes/4"

def alpnsFor (rosterMode : Bool) : List Alpn :=
  [alpnMcp, alpnPair, alpnPing, appBlobAlpn] ++ if rosterMode then [gossipAlpn, blobAlpn] else []

/-- The arms of the accept loop. -/
inductive Arm where
  | mcp
  | pair
  | ping
  | gossip
  | rosterBlobs
  | appBlobs
  | app (alpn : Alpn)
  deriving DecidableEq

section

variable {H : Type*}

/-- Which arm takes a connection: the daemon's own first, then the registry. -/
def armOf (protocols : AList fun _ : Alpn => H) (alpn : Alpn) : Option Arm :=
  if alpn = alpnMcp then some .mcp
  else if alpn = alpnPair then some .pair
  else if alpn = alpnPing then some .ping
  else if alpn = gossipAlpn then some .gossip
  else if alpn = blobAlpn then some .rosterBlobs
  else if alpn = appBlobAlpn then some .appBlobs
  else if (protocols.lookup alpn).isSome then some (.app alpn)
  else none

/-! ## registration -/

/-- Why a registration is refused. -/
inductive RegisterError where
  | empty
  | builtin
  | reserved
  deriving DecidableEq

/-- The checks of `register_app_protocol`, in its order. -/
def checkAlpn (alpn : Alpn) : Except RegisterError Unit :=
  if alpn = [] then .error .empty
  else if alpn ∈ alpnsFor true then .error .builtin
  else if utf8 "mcpmesh/" <+: alpn then .error .reserved
  else .ok ()

inductive RegisterStage where
  | checked
  | inserted
  | done
  deriving DecidableEq

/-- A call of `register_app_protocol` that passed the checks. -/
structure RegisterCall (H : Type*) where
  alpn : Alpn
  handler : H
  stage : RegisterStage

structure AppProtocols (H : Type*) where
  bound : List Alpn
  protocols : AList fun _ : Alpn => H
  advertised : List Alpn
  calls : List (RegisterCall H)

inductive ProtocolEvent (H : Type*) where
  | register (alpn : Alpn) (handler : H)
  /-- under the write lock of the map -/
  | insert (i : Nat)
  /-- `rebind_alpns`, under its read lock -/
  | rebind (i : Nat)

namespace AppProtocols

/-- The daemon after its boot. -/
def boot (rosterMode : Bool) : AppProtocols H :=
  { bound := alpnsFor rosterMode, protocols := ∅, advertised := alpnsFor rosterMode, calls := [] }

def step (s : AppProtocols H) : ProtocolEvent H → Option (AppProtocols H)
  | .register alpn handler =>
      match checkAlpn alpn with
      | .error _ => some s
      | .ok () => some { s with calls := s.calls ++ [⟨alpn, handler, .checked⟩] }
  | .insert i =>
      match s.calls[i]? with
      | some ⟨alpn, handler, .checked⟩ =>
          some { s with
            protocols := s.protocols.insert alpn handler
            calls := s.calls.set i ⟨alpn, handler, .inserted⟩ }
      | _ => none
  | .rebind i =>
      match s.calls[i]? with
      | some ⟨alpn, handler, .inserted⟩ =>
          some { s with
            advertised := s.bound ++ s.protocols.keys
            calls := s.calls.set i ⟨alpn, handler, .done⟩ }
      | _ => none

end AppProtocols

/-! ## what a run keeps -/

namespace AppProtocols

variable {s s' : AppProtocols H} {rosterMode : Bool} {event : ProtocolEvent H}

/-- How far a call has come. -/
structure Progress (s : AppProtocols H) (call : RegisterCall H) : Prop where
  checked : checkAlpn call.alpn = .ok ()
  inserted : call.stage ≠ .checked → call.alpn ∈ s.protocols.keys
  done : call.stage = .done → call.alpn ∈ s.advertised

structure Inv (rosterMode : Bool) (s : AppProtocols H) : Prop where
  bound : s.bound = alpnsFor rosterMode
  keeps : s.bound ⊆ s.advertised
  backed : s.advertised ⊆ s.bound ++ s.protocols.keys
  calls : ∀ call ∈ s.calls, s.Progress call
  /-- a key is that of a call past its insertion -/
  keys : ∀ alpn ∈ s.protocols.keys, ∃ call ∈ s.calls, call.alpn = alpn ∧ call.stage ≠ .checked

/-- An insert adds one protocol. -/
theorem mem_keys_insert {protocols : AList fun _ : Alpn => H} {alpn alpn' : Alpn} {handler : H} :
    alpn' ∈ (protocols.insert alpn handler).keys ↔ alpn' = alpn ∨ alpn' ∈ protocols.keys := by
  rw [← AList.mem_keys, AList.mem_insert, AList.mem_keys]

/-- Calls at another stage of one of them. -/
theorem exists_call_set {calls : List (RegisterCall H)} {i : Nat} {call : RegisterCall H}
    (hcall : calls[i]? = some call) (stage : RegisterStage) (hstage : stage ≠ .checked)
    {alpn : Alpn} (h : ∃ c ∈ calls, c.alpn = alpn ∧ c.stage ≠ .checked) :
    ∃ c ∈ calls.set i { call with stage }, c.alpn = alpn ∧ c.stage ≠ .checked := by
  obtain ⟨hi, rfl⟩ := List.getElem?_eq_some_iff.mp hcall
  obtain ⟨c, hc, rfl, hchecked⟩ := h
  obtain ⟨j, hj, rfl⟩ := List.mem_iff_getElem.mp hc
  obtain rfl | hne := eq_or_ne i j
  · exact ⟨_, List.mem_set hi _, rfl, hstage⟩
  · refine ⟨calls[j], ?_, rfl, hchecked⟩
    rw [List.mem_iff_getElem]
    exact ⟨j, by rwa [List.length_set], List.getElem_set_ne hne _⟩

/-- A registration that is inserted is not advertised yet. -/
theorem Inv.insert (h : s.Inv rosterMode) {i : Nat} {alpn : Alpn} {handler : H}
    (hcall : s.calls[i]? = some ⟨alpn, handler, .checked⟩) :
    ({ s with
        protocols := s.protocols.insert alpn handler
        calls := s.calls.set i ⟨alpn, handler, .inserted⟩ } : AppProtocols H).Inv rosterMode where
  bound := h.bound
  keeps := h.keeps
  backed a ha := by
    obtain ha | ha := List.mem_append.mp (h.backed ha)
    · exact List.mem_append_left _ ha
    · exact List.mem_append_right _ (mem_keys_insert.mpr (.inr ha))
  calls call hmem := by
    obtain hmem | rfl := List.mem_or_eq_of_mem_set hmem
    · have hcall := h.calls call hmem
      exact ⟨hcall.checked, fun hstage => mem_keys_insert.mpr (.inr (hcall.inserted hstage)),
        hcall.done⟩
    · exact ⟨(h.calls _ (List.mem_of_getElem? hcall)).checked,
        fun _ => mem_keys_insert.mpr (.inl rfl), nofun⟩
  keys a ha := by
    obtain rfl | ha := mem_keys_insert.mp ha
    · obtain ⟨hi, -⟩ := List.getElem?_eq_some_iff.mp hcall
      exact ⟨_, List.mem_set hi _, rfl, nofun⟩
    · exact exists_call_set hcall .inserted nofun (h.keys a ha)

/-- A rebind advertises what is registered. -/
theorem Inv.rebind (h : s.Inv rosterMode) {i : Nat} {alpn : Alpn} {handler : H}
    (hcall : s.calls[i]? = some ⟨alpn, handler, .inserted⟩) :
    ({ s with
        advertised := s.bound ++ s.protocols.keys
        calls := s.calls.set i ⟨alpn, handler, .done⟩ } : AppProtocols H).Inv rosterMode where
  bound := h.bound
  keeps := List.subset_append_left ..
  backed := List.Subset.refl _
  calls call hmem := by
    obtain hmem | rfl := List.mem_or_eq_of_mem_set hmem
    · have hcall := h.calls call hmem
      refine ⟨hcall.checked, hcall.inserted, fun hdone => List.mem_append_right _ ?_⟩
      exact hcall.inserted (by rw [hdone]; nofun)
    · have hcall := h.calls _ (List.mem_of_getElem? hcall)
      have hkey := hcall.inserted nofun
      exact ⟨hcall.checked, fun _ => hkey, fun _ => List.mem_append_right _ hkey⟩
  keys a ha := exists_call_set hcall .done nofun (h.keys a ha)

/-- **The step rule**. -/
theorem Inv.step (h : s.Inv rosterMode) (hstep : s.step event = some s') : s'.Inv rosterMode := by
  cases event with
  | register alpn handler =>
      simp only [AppProtocols.step] at hstep
      split at hstep
      · exact Option.some.inj hstep ▸ h
      · next hcheck =>
        obtain rfl := Option.some.inj hstep
        refine ⟨h.bound, h.keeps, h.backed, fun call hmem => ?_, fun a ha => ?_⟩
        · obtain hmem | hmem := List.mem_append.mp hmem
          · exact ⟨(h.calls call hmem).checked, (h.calls call hmem).inserted,
              (h.calls call hmem).done⟩
          · obtain rfl := List.mem_singleton.mp hmem
            exact ⟨hcheck, fun hne => absurd rfl hne, nofun⟩
        · obtain ⟨call, hmem, hkey⟩ := h.keys a ha
          exact ⟨call, List.mem_append_left _ hmem, hkey⟩
  | insert i =>
      simp only [AppProtocols.step] at hstep
      split at hstep
      · next hcall => exact Option.some.inj hstep ▸ h.insert hcall
      · contradiction
  | rebind i =>
      simp only [AppProtocols.step] at hstep
      split at hstep
      · next hcall => exact Option.some.inj hstep ▸ h.rebind hcall
      · contradiction

namespace Example

def chat : Alpn := utf8 "app/chat/1"

def sync : Alpn := utf8 "app/sync/1"

/-- Both handlers are in before either set is advertised. -/
def crossed : List (ProtocolEvent Unit) :=
  [.register chat (), .register sync (), .insert 1, .insert 0, .rebind 1, .rebind 0]

end Example

end AppProtocols

end

end Mcpmesh
