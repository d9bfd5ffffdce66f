import Mcpmesh.Roster.Instance
import Mcpmesh.Roster.Validate

/-!
# Mcpmesh.Roster.Agreement

Whether the format of a document says which fields it has
(`validate_for_install_with_anchor`, `load_installed`,
`trust/src/roster/validate.rs`).

The `/2` format exists to declare a successor pair.  An install asks whether
one field of the pair is there, so half a pair passes; a load asks for a known
format only.  Both refuse for the other rules alike, so what a load accepts
beyond those rules decides the agreement of both.
-/

namespace Mcpmesh

open Lib

/-- `/1` without a successor pair, or `/2` with all of it. -/
def Roster.FieldsAgree (r : Roster) : Prop :=
  (r.format = rosterFormat ∧ r.successorRootPk = none ∧ r.successorSig = none) ∨
    (r.format = rosterFormatRotation ∧ r.successorRootPk.isSome = true ∧
      r.successorSig.isSome = true)

section Agreement

variable (P : Primitives) (roster : Roster) (rootPk : VerifyingKey P)

/-- Both acceptance paths take documents only whose format and fields agree. -/
structure AcceptsOnlyAgreeing (installedSerial : Nat) (now : Int) : Prop where
  install : ∀ view anchor, validateForInstallWithAnchor P roster rootPk installedSerial now =
    .ok (view, anchor) → roster.FieldsAgree
  load : ∀ view, loadInstalled P roster rootPk = .ok view → roster.FieldsAgree

/-- The rules of a load: a known format, a key that verifies the body, an
expiry that reads, and rules 4 and 5. -/
structure MeetsLoadRules : Prop where
  format : roster.format = rosterFormat ∨ roster.format = rosterFormatRotation
  verified : ∃ k anchor, resolveVerifier P roster rootPk = .ok (k, anchor)
  expires : ∃ expires view, parseRfc3339 P roster.expiresAt = .ok expires ∧
    buildView P roster expires = .ok view

variable {P roster rootPk}

theorem loadInstalled_eq_ok :
    (∃ view, loadInstalled P roster rootPk = .ok view) ↔ MeetsLoadRules P roster rootPk := by
  unfold loadInstalled
  simp only [bind_eq_ok, ensure_eq_ok, Bool.or_eq_true, beq_iff_eq]
  constructor
  · rintro ⟨view, -, hformat, ⟨k, anchor⟩, hverified, expires, hexpires, hview⟩
    exact ⟨hformat, ⟨k, anchor, hverified⟩, expires, view, hexpires, hview⟩
  · rintro ⟨hformat, ⟨k, anchor, hverified⟩, expires, view, hexpires, hview⟩
    exact ⟨view, (), hformat, (k, anchor), hverified, expires, hexpires, hview⟩

/-- What an install accepts, a load accepts. -/
theorem meetsLoadRules_of_install {installedSerial : Nat} {now : Int} {view : RosterView}
    {anchor : AnchorChange}
    (h : validateForInstallWithAnchor P roster rootPk installedSerial now = .ok (view, anchor)) :
    MeetsLoadRules P roster rootPk := by
  obtain ⟨hformat, ⟨k, hverified⟩, hfresh⟩ := validateForInstallWithAnchor_eq_ok.mp h
  obtain ⟨_, hknown, -⟩ := bind_eq_ok.mp hformat
  obtain ⟨_, _, hfresh⟩ := bind_eq_ok.mp hfresh
  obtain ⟨_, _, hfresh⟩ := bind_eq_ok.mp hfresh
  obtain ⟨expires, hexpires, hfresh⟩ := bind_eq_ok.mp hfresh
  obtain ⟨_, _, hview⟩ := bind_eq_ok.mp hfresh
  have hknown : roster.format = rosterFormat ∨ roster.format = rosterFormatRotation := by
    simpa using ensure_eq_ok.mp hknown
  exact ⟨hknown, ⟨k, anchor, hverified⟩, expires, view, hexpires, hview⟩

end Agreement

/-- **Format and fields agree on what is accepted** exactly where they agree
already, or where a rule that both paths share refuses the document. -/
theorem accepts_only_agreeing_iff (P : Primitives) (roster : Roster) (rootPk : VerifyingKey P)
    (installedSerial : Nat) (now : Int) :
    AcceptsOnlyAgreeing P roster rootPk installedSerial now ↔
      roster.FieldsAgree ∨ ¬ MeetsLoadRules P roster rootPk := by
  constructor
  · intro h
    by_cases hrules : MeetsLoadRules P roster rootPk
    · obtain ⟨view, hload⟩ := loadInstalled_eq_ok.mpr hrules
      exact .inl (h.load view hload)
    · exact .inr hrules
  · rintro (hagree | hrules)
    · exact ⟨fun _ _ _ => hagree, fun _ _ => hagree⟩
    · exact
        { install := fun _ _ h => absurd (meetsLoadRules_of_install h) hrules
          load := fun view h => absurd (loadInstalled_eq_ok.mp ⟨view, h⟩) hrules }

namespace HalfPair

/-- A `/2` document that names a successor without the statement for it. -/
def half : Roster :=
  { Instance.bridge "acme" 2 Instance.successorKey 0 1 with successorSig := none }

/-- A `/1` document with a whole pair. -/
def mislabelled : Roster :=
  { Instance.bridge "acme" 2 Instance.successorKey 0 2 with format := rosterFormat }

def primitives : Primitives :=
  Instance.primitives [Instance.rootKey]
    [Instance.bodySignature Instance.rootKey half 1,
      Instance.bodySignature Instance.rootKey mislabelled 2]

def root : VerifyingKey primitives := ⟨Instance.rootKey, by decide⟩

end HalfPair

open HalfPair in
/-- Half a pair is installed; a pair under the wrong format is loaded, which an
install refuses. -/
theorem half_pair_accepted :
    ¬ AcceptsOnlyAgreeing primitives half root 1 Instance.now ∧
      ¬ AcceptsOnlyAgreeing primitives mislabelled root 1 Instance.now ∧
      (validateForInstallWithAnchor primitives half root 1 Instance.now).isOk = true ∧
      (validateForInstallWithAnchor primitives mislabelled root 1 Instance.now).isOk = false ∧
      (loadInstalled primitives mislabelled root).isOk = true := by
  obtain ⟨hhalf, hrefused, hload⟩ :
      (validateForInstallWithAnchor primitives half root 1 Instance.now).isOk = true ∧
        (validateForInstallWithAnchor primitives mislabelled root 1 Instance.now).isOk = false ∧
        (loadInstalled primitives mislabelled root).isOk = true := by decide +kernel
  refine ⟨fun h => ?_, fun h => ?_, hhalf, hrefused, hload⟩
  · obtain ⟨out, hout⟩ := isOk_iff.mp hhalf
    simpa [Roster.FieldsAgree, half, Instance.bridge, rosterFormat, rosterFormatRotation] using
      h.install out.1 out.2 hout
  · obtain ⟨view, hview⟩ := isOk_iff.mp hload
    simpa [Roster.FieldsAgree, mislabelled, Instance.bridge, rosterFormat,
      rosterFormatRotation] using h.load view hview

end Mcpmesh
