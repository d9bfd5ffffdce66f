import Mathlib.Data.String.Basic
import Mathlib.Logic.Function.Basic

/-!
# Mcpmesh.Lib.ProcessEnv

The environment of a process that another one spawns.

A platform compares the names of variables exactly or without regard to case, by
a table of its own that is ASCII's on ASCII (`CaseTable`).  A command records what
it sets and what it removes, and the child inherits the rest (`CommandEnv`).
`asciiCaps_iff_key` says that ASCII capitals find every name that the platform
takes for one that begins so.
-/

namespace Mcpmesh.Lib

/-! ## names -/

/-- How a platform that ignores case capitalizes: ASCII as ASCII, and nothing
else into it. -/
structure CaseTable where
  upcase : Char → Char
  ascii (c : Char) : c.toNat < 128 → upcase c = c.toUpper
  other (c : Char) : ¬c.toNat < 128 → ¬(upcase c).toNat < 128

/-- ASCII, with every other character as it is. -/
def CaseTable.asciiOnly : CaseTable where
  upcase c := if c.toNat < 128 then c.toUpper else c
  ascii _ h := if_pos h
  other _ h := by rwa [if_neg h]

inductive NameOrder where
  | exact
  | ignoreCase (table : CaseTable)

/-- Two names are one variable when their keys are equal. -/
def NameOrder.key : NameOrder → String → List Char
  | .exact, name => name.toList
  | .ignoreCase table, name => name.toList.map table.upcase

/-- `str::to_ascii_uppercase` -/
def asciiCaps (name : String) : List Char := name.toList.map Char.toUpper

section Caps

variable {table : CaseTable} {o : NameOrder} {c p : Char} {cs caps : List Char}
  {name name' : String}

/-- Upper case is of ASCII letters only. -/
theorem toUpper_of_not_ascii (h : ¬c.toNat < 128) : c.toUpper = c := by
  refine dif_neg ?_
  rintro ⟨-, hle⟩
  exact h (lt_of_le_of_lt (UInt32.le_iff_toNat_le.mp hle) (by decide))

/-- Where ASCII is asked for, a table does what ASCII's upper case does. -/
theorem CaseTable.upcase_eq_iff (hp : p.toNat < 128) : table.upcase c = p ↔ c.toUpper = p := by
  by_cases hc : c.toNat < 128
  · rw [table.ascii c hc]
  · rw [toUpper_of_not_ascii hc]
    exact ⟨fun h => absurd (h ▸ hp) (table.other c hc), fun h => absurd (h ▸ hp) hc⟩

/-- A name starts with an ASCII prefix in any case, as it does in ASCII's. -/
theorem prefix_upcase_iff (hcaps : ∀ p ∈ caps, p.toNat < 128) :
    caps <+: cs.map table.upcase ↔ caps <+: cs.map Char.toUpper := by
  induction caps generalizing cs with
  | nil => simp
  | cons p caps ih =>
      rw [List.forall_mem_cons] at hcaps
      cases cs with
      | nil => simp
      | cons c cs =>
          rw [List.map_cons, List.map_cons, List.cons_prefix_cons, List.cons_prefix_cons,
            ih hcaps.2, eq_comm, CaseTable.upcase_eq_iff hcaps.1, eq_comm]

/-- Of two names that are one variable, both begin with the capitals in some case
or neither does. -/
theorem asciiCaps_of_key_eq (hcaps : ∀ p ∈ caps, p.toNat < 128) (h : o.key name = o.key name') :
    caps <+: asciiCaps name ↔ caps <+: asciiCaps name' := by
  cases o with
  | exact => rw [String.toList_inj.mp h]
  | ignoreCase table =>
      rw [asciiCaps, asciiCaps, ← @prefix_upcase_iff table name.toList caps hcaps,
        ← @prefix_upcase_iff table name'.toList caps hcaps]
      exact iff_of_eq (congrArg (caps <+: ·) h)

/-- A name in ASCII capitals is its own key. -/
theorem key_of_caps (hascii : ∀ c ∈ name.toList, c.toNat < 128)
    (hcaps : asciiCaps name = name.toList) : o.key name = name.toList := by
  cases o with
  | exact => rfl
  | ignoreCase table =>
      have hsame : name.toList.map table.upcase = asciiCaps name :=
        List.map_congr_left fun c hc => table.ascii c (hascii c hc)
      exact hsame.trans hcaps

end Caps

/-! ## commands -/

/-- What a command says of a variable, by its key: nothing, a value, or that it
is removed (`std::process::Command`). -/
abbrev CommandEnv := List Char → Option (Option String)

namespace CommandEnv

def new : CommandEnv := fun _ => none

variable (o : NameOrder)

/-- `Command::env` -/
def env (c : CommandEnv) (name value : String) : CommandEnv :=
  Function.update c (o.key name) (some (some value))

/-- `Command::env_remove` -/
def envRemove (c : CommandEnv) (name : String) : CommandEnv :=
  Function.update c (o.key name) (some none)

/-- `Command::envs` -/
def envs (c : CommandEnv) (vars : List (String × String)) : CommandEnv :=
  vars.foldl (fun c var => c.env o var.1 var.2) c

/-- What the child finds under a name, over what it inherits. -/
def var (c : CommandEnv) (inherited : List Char → Option String) (name : String) :
    Option String :=
  (c (o.key name)).getD (inherited (o.key name))

variable {o} {c : CommandEnv} {name value : String} {vars : List (String × String)}

/-- One variable set, looked up. -/
theorem env_apply (key : List Char) :
    c.env o name value key = if key = o.key name then some (some value) else c key :=
  Function.update_apply ..

/-- One variable removed, looked up. -/
theorem envRemove_apply (key : List Char) :
    c.envRemove o name key = if key = o.key name then some none else c key :=
  Function.update_apply ..

/-- Variables set in a row leave the others. -/
theorem envs_of_ne (h : ∀ var ∈ vars, o.key name ≠ o.key var.1) :
    c.envs o vars (o.key name) = c (o.key name) := by
  induction vars generalizing c with
  | nil => rfl
  | cons var vars ih =>
      rw [List.forall_mem_cons] at h
      rw [envs, List.foldl_cons, ← envs, ih h.2, env_apply, if_neg h.1]

end CommandEnv

end Mcpmesh.Lib
