import Iostash.Util.Text
import Mathlib.Data.BitVec

/-!
# Control commands

The stores to the `caches` and `targets` attributes of `iostash_module.c`: a keyword and the path of a
device. The keyword is looked for anywhere in the line, `add` first.
-/

namespace Iostash

namespace Driver

open Util

/-- `char`, which is signed. -/
abbrev CChar := BitVec 8

/-- A string up to its NUL. -/
abbrev CStr := List CChar

/-- `c <= ' '` -/
def blank (c : CChar) : Bool := c.sle 0x20#8

/-- `_chkcmd`: the word after the first occurrence of `cmd`. -/
def chkcmd (cmdline cmd : CStr) : Option CStr :=
  (strstr cmd cmdline).map fun arg => ((arg.drop cmd.length).dropWhile blank).takeWhile fun c => !blank c

/-- What a store calls. -/
inductive CtlCall where
  | ssdRegister (path : CStr)
  | ssdUnregister (path : CStr)
  | hddRegister (path : CStr)
  | hddUnregister (path : CStr)
  deriving DecidableEq

/-- `"add"` -/
def cmdAdd : CStr := [0x61#8, 0x64#8, 0x64#8]

/-- `"rm"` -/
def cmdRm : CStr := [0x72#8, 0x6d#8]

/-- The body that both stores have: the calls made, and the bytes taken. -/
def store (register unregister : CStr → CtlCall) (buffer : CStr) (size : Nat) : List CtlCall × Nat :=
  match chkcmd buffer cmdAdd with
  | some arg => ([register arg], size)
  | none =>
    match chkcmd buffer cmdRm with
    | some arg => ([unregister arg], size)
    | none => ([], size)

/-- `caches_store` -/
def cachesStore : CStr → Nat → List CtlCall × Nat := store .ssdRegister .ssdUnregister

/-- `targets_store` -/
def targetsStore : CStr → Nat → List CtlCall × Nat := store .hddRegister .hddUnregister

/-- White space, as `isspace` has it. -/
def isspace (c : CChar) : Bool := c == 0x20#8 || (decide (0x09#8 ≤ c) && decide (c ≤ 0x0d#8))

/-- Printable ASCII, but no space. -/
def graphic (c : CChar) : Bool := decide (0x21#8 ≤ c) && decide (c ≤ 0x7e#8)

variable {cmd gap path rest : CStr} {register unregister : CStr → CtlCall} {size : Nat}

theorem blank_of_isspace : ∀ c : CChar, isspace c = true → blank c = true ∧ c ∉ cmdAdd := by
  decide

theorem graphic_not_blank : ∀ c : CChar, graphic c = true → blank c = false := by
  decide

/-- The word is the path. -/
theorem word_eq (space : ∀ c ∈ gap, isspace c = true) (space' : ∀ c ∈ rest, isspace c = true) (named : path ≠ [])
    (ascii : ∀ c ∈ path, graphic c = true) :
    ((gap ++ path ++ rest).dropWhile blank).takeWhile (fun c => !blank c) = path := by
  rw [List.append_assoc, List.dropWhile_append_of_pos fun c member => (blank_of_isspace c (space c member)).1]
  have start : (path ++ rest).dropWhile blank = path ++ rest := by
    cases path with
    | nil => exact absurd rfl named
    | cons c path =>
      rw [List.cons_append, List.dropWhile_cons, graphic_not_blank c (ascii c List.mem_cons_self)]
      rfl
  have stop : rest.takeWhile (fun c => !blank c) = [] := by
    cases rest with
    | nil => rfl
    | cons c rest =>
      rw [List.takeWhile_cons, (blank_of_isspace c (space' c List.mem_cons_self)).1]
      rfl
  rw [start, List.takeWhile_append_of_pos fun c member => by rw [graphic_not_blank c (ascii c member)]; rfl, stop,
    List.append_nil]

/-- A command whose line starts with it. -/
theorem chkcmd_start (cmd : CStr) (space : ∀ c ∈ gap, isspace c = true) (space' : ∀ c ∈ rest, isspace c = true)
    (named : path ≠ []) (ascii : ∀ c ∈ path, graphic c = true) :
    chkcmd (cmd ++ (gap ++ path ++ rest)) cmd = some path := by
  rw [chkcmd, strstr_append, Option.map_some, List.drop_left, word_eq space space' named ascii]

/-- `add` is found in the line of `rm` when it is in the path. -/
theorem chkcmd_rm_eq_none (space : ∀ c ∈ gap, isspace c = true) (space' : ∀ c ∈ rest, isspace c = true) :
    chkcmd (cmdRm ++ (gap ++ path ++ rest)) cmdAdd = none ↔ ¬ cmdAdd <:+: path := by
  have clear : ∀ c ∈ cmdRm ++ gap, c ∉ cmdAdd := by
    intro c member
    rcases List.mem_append.mp member with keyword | space'
    · exact (by decide : ∀ c ∈ cmdRm, c ∉ cmdAdd) c keyword
    · exact (blank_of_isspace c (space c space')).2
  rw [chkcmd, Option.map_eq_none_iff, strstr_eq_none, List.append_assoc gap, ← List.append_assoc,
    infix_append_left (by decide) clear, infix_append_right (by decide) fun c member => (blank_of_isspace c (space' c member)).2]

theorem store_add (register unregister : CStr → CtlCall) (space : ∀ c ∈ gap, isspace c = true) (space' : ∀ c ∈ rest, isspace c = true) (named : path ≠ [])
    (ascii : ∀ c ∈ path, graphic c = true) :
    (store register unregister (cmdAdd ++ (gap ++ path ++ rest)) size).1 = [register path] := by
  rw [store, chkcmd_start cmdAdd space space' named ascii]

theorem store_rm_iff (apart : ∀ p q, register p ≠ unregister q) (space : ∀ c ∈ gap, isspace c = true)
    (space' : ∀ c ∈ rest, isspace c = true) (named : path ≠ []) (ascii : ∀ c ∈ path, graphic c = true) :
    (store register unregister (cmdRm ++ (gap ++ path ++ rest)) size).1 = [unregister path] ↔ ¬ cmdAdd <:+: path := by
  rw [← chkcmd_rm_eq_none space space', store]
  cases chkcmd (cmdRm ++ (gap ++ path ++ rest)) cmdAdd with
  | none =>
    rw [chkcmd_start cmdRm space space' named ascii]
    simp
  | some arg => simp [apart]

/-! ### The commands of the control script -/

inductive Attribute where
  | caches | targets

inductive Keyword where
  | add | rm

def Attribute.store : Attribute → CStr → Nat → List CtlCall × Nat
  | .caches => cachesStore
  | .targets => targetsStore

def Keyword.text : Keyword → CStr
  | .add => cmdAdd
  | .rm => cmdRm

/-- The call a command asks for. -/
def asked : Attribute → Keyword → CStr → CtlCall
  | .caches, .add => .ssdRegister
  | .caches, .rm => .ssdUnregister
  | .targets, .add => .hddRegister
  | .targets, .rm => .hddUnregister

/-- A store makes the call its command asks for, and no other, exactly when `add` is not in the path of an `rm`. -/
theorem store_asked_iff (a : Attribute) (keyword : Keyword) (size : Nat) (space : ∀ c ∈ gap, isspace c = true)
    (space' : ∀ c ∈ rest, isspace c = true) (named : path ≠ []) (ascii : ∀ c ∈ path, graphic c = true) :
    (a.store (keyword.text ++ (gap ++ path ++ rest)) size).1 = [asked a keyword path] ↔
      (keyword = .rm → ¬ cmdAdd <:+: path) := by
  cases keyword with
  | add =>
    constructor
    · rintro _ ⟨⟩
    · intro _
      cases a with
      | caches => exact store_add .ssdRegister .ssdUnregister space space' named ascii
      | targets => exact store_add .hddRegister .hddUnregister space space' named ascii
  | rm =>
    have call : (a.store (cmdRm ++ (gap ++ path ++ rest)) size).1 = [asked a .rm path] ↔
        ¬ cmdAdd <:+: path := by
      cases a with
      | caches => exact store_rm_iff (by simp) space space' named ascii
      | targets => exact store_rm_iff (by simp) space space' named ascii
    exact call.trans ⟨fun h _ => h, fun h => h rfl⟩

/-- `rm /dev/sdb` and a newline. -/
theorem store_asked_sdb : (cachesStore (cmdRm ++ ([0x20#8] ++
      [0x2f#8, 0x64#8, 0x65#8, 0x76#8, 0x2f#8, 0x73#8, 0x64#8, 0x62#8] ++ [0x0a#8])) 12).1 =
    [.ssdUnregister [0x2f#8, 0x64#8, 0x65#8, 0x76#8, 0x2f#8, 0x73#8, 0x64#8, 0x62#8]] :=
  (store_asked_iff .caches .rm 12 (by decide) (by decide) (by decide) (by decide)).mpr fun _ => by decide

/-- `rm /dev/vg/add1` and a newline registers `1`. -/
theorem store_confused : (cachesStore (cmdRm ++ ([0x20#8] ++ [0x2f#8, 0x64#8, 0x65#8, 0x76#8, 0x2f#8, 0x76#8, 0x67#8,
      0x2f#8, 0x61#8, 0x64#8, 0x64#8, 0x31#8] ++ [0x0a#8])) 16).1 = [.ssdRegister [0x31#8]] := by
  decide

end Driver

end Iostash
