import Mcpmesh.Gate.Composed
import Mcpmesh.Roster.Instance
import Mcpmesh.Trust.Statements
import Mathlib.Data.List.ReduceOption

/-!
# Mcpmesh.Gate.Principals

The flat namespace an allow list is matched in (`local-api/src/principals.rs`,
`net/src/identity.rs`, `caller_admits` of `net/src/endpoint.rs`): a caller's
groups, its device principal `eid:…` and its user id, verbatim.

An entry of the form `eid:…` or `b64u:…` should speak of a device or of a user
key.  A roster may spell a `user_id` or a group in either form, so what an entry
admits depends on the names the deciding document carries (`HonestNames`).
-/

namespace Mcpmesh

open Lib

/-! ## principals -/

/-- `HEXLOWER.encode`. -/
def hexLower (bytes : List UInt8) : String :=
  .ofList (bytes.flatMap fun b => [Nat.digitChar (b.toNat / 16), Nat.digitChar (b.toNat % 16)])

def eidPrefix : String := "eid:"

/-- `EndpointId::principal`. -/
def principal (endpoint : EndpointId) : String := eidPrefix ++ hexLower endpoint.toList

/-- `groups ∪ {eid} ∪ {user_id}`; empty strings are never principals. -/
def principalSet (eid userId : Option String) (groups : List String) : Finset String :=
  ((groups ++ [eid, userId].reduceOption).filter (· ≠ "")).toFinset

/-- An allow entry admits the caller. -/
def entryAdmits (identity : PeerIdentity) (entry : String) : Bool :=
  entry ∈ principalSet (some (principal identity.endpoint)) identity.userId identity.groups

/-- `caller_admits`. -/
def callerAdmits (identity : PeerIdentity) (allow : List String) : Bool :=
  allow.any (entryAdmits identity)

/-- A list admits the caller when one of its entries does. -/
theorem callerAdmits_iff {identity : PeerIdentity} {allow : List String} :
    callerAdmits identity allow = true ↔ ∃ entry ∈ allow, entryAdmits identity entry = true :=
  List.any_eq_true

/-- The set of an identity: its strings, without the empty one. -/
theorem mem_principalSet {eid userId : Option String} {groups : List String} {s : String} :
    s ∈ principalSet eid userId groups ↔
      s ≠ "" ∧ (s ∈ groups ∨ eid = some s ∨ userId = some s) := by
  have hmem : s ∈ [eid, userId].reduceOption ↔ eid = some s ∨ userId = some s := by
    simp [List.reduceOption_mem_iff, eq_comm]
  rw [principalSet, List.mem_toFinset, List.mem_filter, List.mem_append, hmem, and_comm,
    decide_eq_true_iff]

/-! ### a device principal names one device -/

/-- The value of a lowercase hex digit. -/
def hexValue (c : Char) : Option Nat :=
  if 48 ≤ c.toNat ∧ c.toNat ≤ 57 then some (c.toNat - 48)
  else if 97 ≤ c.toNat ∧ c.toNat ≤ 102 then some (c.toNat - 87)
  else none

def hexBytes : List Char → Option (List UInt8)
  | [] => some []
  | [_] => none
  | high :: low :: rest => do
      let high ← hexValue high
      let low ← hexValue low
      let bytes ← hexBytes rest
      some (.ofNat (16 * high + low) :: bytes)

/-- `HEXLOWER.decode`. -/
def hexDecode (s : String) : Option (List UInt8) := hexBytes s.toList

/-- A digit that was written is read back. -/
theorem hexValue_digitChar {n : Nat} (h : n < 16) : hexValue (Nat.digitChar n) = some n := by
  have hall : ∀ n : Fin 16, hexValue (Nat.digitChar n) = some n.val := by decide
  exact hall ⟨n, h⟩

/-- Decoding gives back what was encoded. -/
theorem hexDecode_hexLower (bytes : List UInt8) : hexDecode (hexLower bytes) = some bytes := by
  rw [hexDecode, hexLower, String.toList_ofList]
  induction bytes with
  | nil => rfl
  | cons b bytes ih =>
      have hb := b.toNat_lt
      rw [List.flatMap_cons, List.cons_append, List.cons_append, List.nil_append, hexBytes,
        hexValue_digitChar (by omega), hexValue_digitChar (by omega), ih]
      simp only [Option.bind_eq_bind, Option.bind_some]
      rw [show 16 * (b.toNat / 16) + b.toNat % 16 = b.toNat by omega, UInt8.ofNat_toNat]

/-- A hex digit is the digit of its value. -/
theorem digitChar_hexValue {c : Char} {n : Nat} (h : hexValue c = some n) :
    n < 16 ∧ Nat.digitChar n = c := by
  have hall : ∀ k : Fin 128, ∀ n, hexValue (Char.ofNat k) = some n →
      n < 16 ∧ Nat.digitChar n = Char.ofNat k := by decide +kernel
  have hlt : c.toNat < 128 := by
    unfold hexValue at h
    split at h
    · omega
    · split at h
      · omega
      · contradiction
  have hc := hall ⟨c.toNat, hlt⟩ n
  rw [Char.ofNat_toNat] at hc
  exact hc h

/-- What decodes is the lower-case writing of its bytes. -/
theorem digits_hexBytes {cs : List Char} {bytes : List UInt8} (h : hexBytes cs = some bytes) :
    (bytes.flatMap fun b => [Nat.digitChar (b.toNat / 16), Nat.digitChar (b.toNat % 16)]) = cs := by
  induction cs using hexBytes.induct generalizing bytes with
  | case1 =>
      obtain rfl := Option.some.inj h
      rfl
  | case2 c => contradiction
  | case3 high low rest ih =>
      simp only [hexBytes, Option.bind_eq_bind, Option.bind_eq_some_iff, Option.some.injEq] at h
      obtain ⟨x, hx, y, hy, bytes, hrest, rfl⟩ := h
      obtain ⟨hx16, rfl⟩ := digitChar_hexValue hx
      obtain ⟨hy16, rfl⟩ := digitChar_hexValue hy
      have hbyte : (UInt8.ofNat (16 * x + y)).toNat = 16 * x + y := by
        rw [UInt8.toNat_ofNat']
        omega
      rw [List.flatMap_cons, ih hrest, hbyte, show (16 * x + y) / 16 = x by omega,
        show (16 * x + y) % 16 = y by omega]
      rfl

/-- Only the text that encodes some bytes decodes to them. -/
theorem hexLower_hexDecode {s : String} {bytes : List UInt8} (h : hexDecode s = some bytes) :
    hexLower bytes = s := by
  rw [hexLower, digits_hexBytes h, String.ofList_toList]

theorem hexLower_injective {bs cs : List UInt8} (h : hexLower bs = hexLower cs) : bs = cs := by
  have hdec := hexDecode_hexLower bs
  rw [h, hexDecode_hexLower] at hdec
  exact (Option.some.inj hdec).symm

theorem principal_injective {x y : EndpointId} (h : principal x = principal y) : x = y := by
  have hchars := congrArg String.toList h
  rw [principal, principal, String.toList_append, String.toList_append] at hchars
  have hhex := String.toList_injective (List.append_cancel_left hchars)
  exact List.Vector.eq x y (hexLower_injective hhex)

/-- Strings that differ in a prefix are different. -/
theorem append_ne {p s t : String} (h : p.toList.isPrefixOf t.toList = false) : p ++ s ≠ t := by
  rintro rfl
  rw [String.toList_append, List.isPrefixOf_iff_prefix.mpr (List.prefix_append _ _)] at h
  contradiction

theorem principal_ne_empty (x : EndpointId) : principal x ≠ "" := append_ne rfl

theorem b64u_ne_empty (k : String) : b64uPrefix ++ k ≠ "" := append_ne rfl

/-- A device principal is no `b64u:` id. -/
theorem principal_ne_b64u (x : EndpointId) (k : String) : principal x ≠ b64uPrefix ++ k :=
  append_ne (by rw [String.toList_append]; rfl)

/-! ## what an entry speaks of -/

section Honest

variable (P : Primitives) (gate : ComposedGate) (roster : Roster) (now : Int)
  (endpoint : EndpointId)

/-- A verified binding ties the endpoint to the user id: the proven id of its
pair row, or a roster device whose binding verifies under the user's key. -/
def Bound (userId : String) : Prop :=
  (∃ entry, gate.pairs.PairRow endpoint entry ∧ entry.userId = some userId) ∨
    ∃ u d pk sig, ListsDevice P roster u d endpoint ∧ decodeB64u P u.userPk = .ok pk.toList ∧
      userId = encodeB64u P pk.toList ∧ verifyDeviceBinding P pk endpoint sig = .ok ()

/-- The law of the two namespaces, for a caller at the endpoint and any allow
list: an `eid:` entry admits that device only, a `b64u:` entry only a device
bound to its key. -/
def NamespacesKept : Prop :=
  ∀ id (allow : List String), gate.resolve now endpoint = some id →
    (∀ y, principal y ∈ allow → entryAdmits id (principal y) = true → endpoint = y) ∧
      ∀ k, b64uPrefix ++ k ∈ allow → entryAdmits id (b64uPrefix ++ k) = true →
        Bound P gate roster endpoint (b64uPrefix ++ k)

/-- The string is not the device principal of another endpoint. -/
def NotAnotherDevice (s : String) : Prop := ∀ y, s = principal y → endpoint = y

/-- The string is not an id the endpoint is not bound to. -/
def NotAnotherKey (s : String) : Prop :=
  ∀ k, s = b64uPrefix ++ k → Bound P gate roster endpoint s

/-- The roster speaks for the endpoint, as a device of `u`: it lists and does
not revoke it, has not stopped, and the store refuses neither the endpoint nor
an identity spelled as `u`. -/
structure RosterDecides (u : RosterUser) : Prop where
  listed : ∃ d, ListsDevice P roster u d endpoint
  kept : ¬ RevokesEndpoint P roster endpoint
  running : gate.roster.effectiveState now ≠ some .degradedStopped
  admissible : gate.pairs.isRefused endpoint = false
  unrevoked : gate.rosterIdentityRevoked (some u.userId) = false

/-- The pair row speaks for the endpoint: the roster does not revoke it, and
lists it no more than a stopped roster does. -/
structure PairDecides (entry : PeerEntry) : Prop where
  kept : ¬ RevokesEndpoint P roster endpoint
  unlisted : gate.roster.effectiveState now = some .degradedStopped ∨
    ∀ u d, ¬ ListsDevice P roster u d endpoint
  admitted : gate.pairs.admission endpoint = .admitted entry

/-- The names under which the deciding document knows the endpoint impersonate
no one: no `user_id` and no group of its roster user, and no user id of its
pair row, is spelled as another device or as a key it is not bound to. -/
structure HonestNames : Prop where
  ofRoster : ∀ u, RosterDecides P gate roster now endpoint u → ∀ s ∈ u.userId :: u.groups,
    NotAnotherDevice endpoint s ∧ NotAnotherKey P gate roster endpoint s
  ofPair : ∀ entry, PairDecides P gate roster now endpoint entry → ∀ s, entry.userId = some s →
    NotAnotherDevice endpoint s

variable {P gate roster now endpoint} {view : RosterView}

/-- An entry admits an identity by a string of its set. -/
theorem entryAdmits_iff {id : PeerIdentity} {s : String} :
    entryAdmits id s = true ↔
      s ≠ "" ∧ (s ∈ id.groups ∨ principal id.endpoint = s ∨ id.userId = some s) := by
  rw [entryAdmits, decide_eq_true_iff, mem_principalSet, Option.some.injEq]

/-- An `eid:` entry admits its device, and who is named like it. -/
theorem entryAdmits_principal {id : PeerIdentity} {y : EndpointId} :
    entryAdmits id (principal y) = true ↔
      principal y ∈ id.groups ∨ id.endpoint = y ∨ id.userId = some (principal y) := by
  have hself : principal id.endpoint = principal y ↔ id.endpoint = y :=
    ⟨principal_injective, congrArg principal⟩
  rw [entryAdmits_iff, and_iff_right (principal_ne_empty y), hself]

/-- A `b64u:` entry admits who is named like it. -/
theorem entryAdmits_b64u {id : PeerIdentity} {k : String} :
    entryAdmits id (b64uPrefix ++ k) = true ↔
      b64uPrefix ++ k ∈ id.groups ∨ id.userId = some (b64uPrefix ++ k) := by
  rw [entryAdmits_iff, and_iff_right (b64u_ne_empty k),
    or_iff_right (principal_ne_b64u id.endpoint k)]

/-- The gate's revocations are the roster's. -/
theorem isRevoked_iff (hview : gate.roster.view = some view)
    (hbuilt : ∃ expires, buildView P roster expires = .ok view) :
    gate.roster.isRevoked endpoint = true ↔ RevokesEndpoint P roster endpoint := by
  obtain ⟨expires, hbuilt⟩ := hbuilt
  rw [RosterGate.isRevoked, hview]
  exact (buildView_spec hbuilt endpoint).1

/-- What the roster does not revoke, the gate does not. -/
theorem isRevoked_eq_false_iff (hview : gate.roster.view = some view)
    (hbuilt : ∃ expires, buildView P roster expires = .ok view) :
    gate.roster.isRevoked endpoint = false ↔ ¬ RevokesEndpoint P roster endpoint := by
  rw [← isRevoked_iff hview hbuilt, Bool.not_eq_true]

/-- The roster decides where it answers, as one of its devices. -/
theorem rosterDecides_iff (hview : gate.roster.view = some view)
    (hbuilt : ∃ expires, buildView P roster expires = .ok view) {u : RosterUser} :
    RosterDecides P gate roster now endpoint u ↔
      ∃ d, ListsDevice P roster u d endpoint ∧
        gate.RosterAnswers now endpoint (resolvedDevice u d) := by
  have hkept := @isRevoked_eq_false_iff _ _ _ endpoint _ hview hbuilt
  obtain ⟨expires, hbuilt⟩ := hbuilt
  have hres := (buildView_spec hbuilt endpoint).2
  constructor
  · intro h
    obtain ⟨d, hlisted⟩ := h.listed
    exact ⟨d, hlisted, ⟨view, hview, (hres _).mpr ⟨h.kept, u, d, hlisted, rfl⟩⟩, h.running,
      hkept.mpr h.kept, h.admissible, h.unrevoked⟩
  · rintro ⟨d, hlisted, h⟩
    exact ⟨⟨d, hlisted⟩, hkept.mp h.kept, h.running, h.admissible, h.unrevoked⟩

/-- The pair row decides where it answers. -/
theorem pairDecides_iff (hview : gate.roster.view = some view)
    (hbuilt : ∃ expires, buildView P roster expires = .ok view) {entry : PeerEntry} :
    PairDecides P gate roster now endpoint entry ↔ gate.PairAnswers now endpoint entry := by
  have hkept := @isRevoked_eq_false_iff _ _ _ endpoint _ hview hbuilt
  obtain ⟨expires, hbuilt⟩ := hbuilt
  have hres := (buildView_spec hbuilt endpoint).2
  constructor
  · intro h
    refine ⟨hkept.mpr h.kept, h.unlisted.imp_right fun hunlisted view' hview' => ?_, h.admitted⟩
    obtain rfl := Option.some.inj (hview.symm.trans hview')
    refine Option.eq_none_iff_forall_ne_some.mpr fun d hd => ?_
    obtain ⟨_, u, dev, hlisted, _⟩ := (hres d).mp hd
    exact hunlisted u dev hlisted
  · intro h
    refine ⟨hkept.mp h.kept, h.unlisted.imp_right fun hunlisted u d hlisted => ?_, h.admitted⟩
    have hd := (hres (resolvedDevice u d)).mpr ⟨hkept.mp h.kept, u, d, hlisted, rfl⟩
    rw [hunlisted view hview] at hd
    contradiction

/-- The gate answers with the roster's names exactly where the roster
decides. -/
theorem resolve_of_rosterDecides (hview : gate.roster.view = some view)
    (hbuilt : ∃ expires, buildView P roster expires = .ok view) {u : RosterUser}
    (h : RosterDecides P gate roster now endpoint u) :
    gate.resolve now endpoint = some
      { endpoint, name := u.userId, userId := some u.userId, groups := u.groups } := by
  obtain ⟨d, -, hanswers⟩ := (rosterDecides_iff hview hbuilt).mp h
  exact ComposedGate.resolve_of_rosterAnswers hanswers

/-- Where the pairing decides, the gate answers with the row's identity. -/
theorem resolve_of_pairDecides (hview : gate.roster.view = some view)
    (hbuilt : ∃ expires, buildView P roster expires = .ok view) {entry : PeerEntry}
    (h : PairDecides P gate roster now endpoint entry) :
    gate.resolve now endpoint = some (identityOf endpoint entry) :=
  ComposedGate.resolve_of_pairAnswers ((pairDecides_iff hview hbuilt).mp h)

/-- Whatever the gate answers, the roster or the pair row decided it. -/
theorem decided_of_resolve (hview : gate.roster.view = some view)
    (hbuilt : ∃ expires, buildView P roster expires = .ok view) {id : PeerIdentity}
    (h : gate.resolve now endpoint = some id) :
    (∃ u, RosterDecides P gate roster now endpoint u ∧
        id = { endpoint, name := u.userId, userId := some u.userId, groups := u.groups }) ∨
      ∃ entry, PairDecides P gate roster now endpoint entry ∧ id = identityOf endpoint entry := by
  obtain ⟨d, hanswers, rfl⟩ | ⟨entry, hanswers, rfl⟩ := ComposedGate.answers_of_resolve h
  · obtain ⟨view', hview', hd⟩ := hanswers.listed
    obtain rfl := Option.some.inj (hview.symm.trans hview')
    obtain ⟨expires, hbuilds⟩ := hbuilt
    obtain ⟨_, u, dev, hlisted, rfl⟩ := ((buildView_spec hbuilds endpoint).2 d).mp hd
    exact .inl ⟨u, (rosterDecides_iff hview ⟨expires, hbuilds⟩).mpr ⟨dev, hlisted, hanswers⟩, rfl⟩
  · exact .inr ⟨entry, (pairDecides_iff hview hbuilt).mpr hanswers, rfl⟩

/-- An allow list of one name asks about that name. -/
theorem NamespacesKept.honest (hview : gate.roster.view = some view)
    (hbuilt : ∃ expires, buildView P roster expires = .ok view)
    (hkept : NamespacesKept P gate roster now endpoint) :
    HonestNames P gate roster now endpoint := by
  refine ⟨fun u hdecides s hs => ?_, fun entry hdecides s hs y hy => ?_⟩
  · have hresolve := resolve_of_rosterDecides hview hbuilt hdecides
    have hname : s ∈ u.groups ∨ some u.userId = some s := by
      obtain rfl | hs := List.mem_cons.mp hs
      · exact .inr rfl
      · exact .inl hs
    obtain ⟨hdevice, hkey⟩ := hkept _ [s] hresolve
    refine ⟨fun y hy => ?_, fun k hk => ?_⟩
    · subst hy
      exact hdevice y List.mem_cons_self (entryAdmits_principal.mpr (hname.imp_right .inr))
    · subst hk
      exact hkey k List.mem_cons_self (entryAdmits_b64u.mpr hname)
  · have hresolve := resolve_of_pairDecides hview hbuilt hdecides
    subst hy
    exact (hkept _ [principal y] hresolve).1 y List.mem_cons_self
      (entryAdmits_principal.mpr (.inr (.inr hs)))

/-- Honest names keep the namespaces apart. -/
theorem HonestNames.kept (hview : gate.roster.view = some view)
    (hbuilt : ∃ expires, buildView P roster expires = .ok view)
    (hhonest : HonestNames P gate roster now endpoint) :
    NamespacesKept P gate roster now endpoint := by
  intro id allow hresolve
  obtain ⟨u, hdecides, rfl⟩ | ⟨entry, hdecides, rfl⟩ := decided_of_resolve hview hbuilt hresolve
  · have hnames := hhonest.ofRoster u hdecides
    refine ⟨fun y _ hadmits => ?_, fun k _ hadmits => ?_⟩
    · obtain hgroup | hself | huser := entryAdmits_principal.mp hadmits
      · exact (hnames _ (List.mem_cons_of_mem _ hgroup)).1 y rfl
      · exact hself
      · exact (hnames _ List.mem_cons_self).1 y (Option.some.inj huser)
    · obtain hgroup | huser := entryAdmits_b64u.mp hadmits
      · exact (hnames _ (List.mem_cons_of_mem _ hgroup)).2 k rfl
      · have hbound := (hnames _ List.mem_cons_self).2 k (Option.some.inj huser)
        rwa [Option.some.inj huser] at hbound
  · have hrow := pairRow_of_admitted hdecides.admitted
    refine ⟨fun y _ hadmits => ?_, fun k _ hadmits => ?_⟩
    · obtain hgroup | hself | huser := entryAdmits_principal.mp hadmits
      · contradiction
      · exact hself
      · exact hhonest.ofPair entry hdecides _ huser y rfl
    · obtain hgroup | huser := entryAdmits_b64u.mp hadmits
      · contradiction
      · exact .inl ⟨entry, hrow, huser⟩

/-- **When the namespaces are kept**: exactly when the names the deciding
document gives the endpoint are honest. -/
theorem namespaces_kept_iff (hview : gate.roster.view = some view)
    (hbuilt : ∃ expires, buildView P roster expires = .ok view) :
    NamespacesKept P gate roster now endpoint ↔ HonestNames P gate roster now endpoint :=
  ⟨NamespacesKept.honest hview hbuilt, HonestNames.kept hview hbuilt⟩

end Honest

namespace RosterNames

/-- The endpoint of the caller. -/
def caller : EndpointId := .replicate 32 1

/-- Another device's endpoint. -/
def other : EndpointId := .replicate 32 2

def P : Primitives := Instance.primitives [] []

/-- A roster whose one user, of the given id, has the caller's device. -/
def roster (userId : String) : Roster :=
  { Instance.roster "acme" 1 0 with
    users := [{ userId, displayName := "Mallory", userPk := "", groups := [],
                devices := [{ endpointId := Instance.b64u caller.toList, label := "laptop",
                              role := "primary" }] }] }

/-- A store without rows. -/
def pairs : PeerStore where
  revoked _ := .ok none
  peers _ := .ok none
  revokedUsers _ := .ok none
  fromSlice _ := .error "expected value"

def gate (view : RosterView) : ComposedGate :=
  { roster := { view := some view, graceSecs := 1000, lastConfirmed := none,
                maxStaleness := 2 ^ 63 - 1 }
    pairs }

theorem listed (userId : String) :
    ∃ u d, u.userId = userId ∧ u.groups = [] ∧ ListsDevice P (roster userId) u d caller :=
  ⟨_, _, rfl, rfl, List.mem_cons_self, List.mem_cons_self, decodeEndpointId_encodeB64u P caller⟩

theorem kept (userId : String) : ¬ RevokesEndpoint P (roster userId) caller :=
  fun ⟨_, he, _⟩ => absurd he List.not_mem_nil

theorem running {userId : String} {view : RosterView}
    (h : buildView P (roster userId) 1000 = .ok view) :
    (gate view).roster.effectiveState 0 ≠ some .degradedStopped := by
  have hexpires := (buildView_eq_ok h).2.2.1
  simp [gate, RosterGate.effectiveState, RosterView.effectiveState, RosterView.state, hexpires,
    RosterView.staleness, RosterState.severity]

theorem decides {userId : String} {view : RosterView}
    (h : buildView P (roster userId) 1000 = .ok view) :
    ∃ u, u.userId = userId ∧ u.groups = [] ∧
      RosterDecides P (gate view) (roster userId) 0 caller u := by
  obtain ⟨u, d, huser, hgroups, hlisted⟩ := listed userId
  refine ⟨u, huser, hgroups, ⟨d, hlisted⟩, kept userId, running h, rfl, ?_⟩
  simp [ComposedGate.rosterIdentityRevoked, PeerStore.isRosterUserRevoked,
    PeerStore.isUserRevoked, gate, pairs]

theorem alice_bare (s : String) : "alice" ≠ eidPrefix ++ s ∧ "alice" ≠ b64uPrefix ++ s :=
  ⟨(append_ne rfl).symm, (append_ne rfl).symm⟩

end RosterNames

/-- A roster that `build_view` accepts lets the device of one endpoint in under
the `eid:` entry of another. -/
theorem roster_user_impersonates_device :
    ¬ ∀ (P : Primitives) (gate : ComposedGate) (roster : Roster) (now : Int)
      (endpoint : EndpointId) (view : RosterView), gate.roster.view = some view →
        (∃ expires, buildView P roster expires = .ok view) →
          NamespacesKept P gate roster now endpoint := by
  intro h
  let userId := principal RosterNames.other
  have hok : (buildView RosterNames.P (RosterNames.roster userId) 1000).isOk = true := by
    decide +kernel
  obtain ⟨view, hbuilt⟩ := isOk_iff.mp hok
  obtain ⟨u, huser, _, hdecides⟩ := RosterNames.decides hbuilt
  have hresolve := resolve_of_rosterDecides rfl ⟨1000, hbuilt⟩ hdecides
  have hkept := h RosterNames.P (RosterNames.gate view) (RosterNames.roster userId) 0
    RosterNames.caller view rfl ⟨1000, hbuilt⟩ _ [userId] hresolve
  have hadmits := hkept.1 RosterNames.other List.mem_cons_self
    (entryAdmits_iff.mpr ⟨principal_ne_empty _, .inr (.inr (congrArg some huser))⟩)
  exact absurd hadmits (by decide)

/-- A roster that calls its user `alice` keeps the namespaces. -/
theorem bare_handle_keeps_namespaces :
    ∃ view, buildView RosterNames.P (RosterNames.roster "alice") 1000 = .ok view ∧
      NamespacesKept RosterNames.P (RosterNames.gate view) (RosterNames.roster "alice") 0
        RosterNames.caller := by
  have hok : (buildView RosterNames.P (RosterNames.roster "alice") 1000).isOk = true := by
    decide +kernel
  obtain ⟨view, hbuilt⟩ := isOk_iff.mp hok
  refine ⟨view, hbuilt, (namespaces_kept_iff rfl ⟨1000, hbuilt⟩).mpr ⟨?_, ?_⟩⟩
  · intro u hdecides s hs
    obtain ⟨d, hu, _, _⟩ := hdecides.listed
    obtain rfl := List.mem_singleton.mp hu
    obtain rfl := List.mem_singleton.mp hs
    exact ⟨fun y hy => absurd hy (RosterNames.alice_bare _).1,
      fun k hk => absurd hk (RosterNames.alice_bare k).2⟩
  · intro entry hdecides
    exact absurd hdecides.admitted (by simp [RosterNames.gate, RosterNames.pairs,
      PeerStore.admission, decideAdmission, Except.map])

end Mcpmesh
