-- SUMMARY: JSON values as JavaScript holds them: truth, properties, and the trimming and splitting of strings.
import CitraFlows.Lib.Trimming
import Mathlib

/-!
# JavaScript values

The values that `JSON.parse` yields, as far as reading them goes: which of them count as
false, what a property of them is, and how their strings are trimmed and split.
-/

namespace CitraFlows

open Trimming

/-- A parsed JSON value. The fields of an object are its own properties, in their order. -/
inductive Js where
  | null
  | bool (b : Bool)
  | number (x : ℚ)
  | string (s : String)
  | array (xs : List Js)
  | object (fields : List (String × Js))

namespace Js

def truthy : Js → Bool
  | null => false
  | bool b => b
  | number x => x ≠ 0
  | string s => s ≠ ""
  | array _ | object _ => true

/-- `value || {}` -/
def orEmpty (value : Js) : Js := if value.truthy then value else object []

/-- `value[name]`, with `none` for `undefined`. What a value inherits is neither a string nor
an array with elements, so it is left out. -/
def property (value : Js) (name : String) : Option Js :=
  match value with
  | object fields => fields.lookup name
  | array xs => (xs.zipIdx.find? fun p => toString p.2 = name).map Prod.fst
  | _ => none

theorem toString_nat_inj {i j : ℕ} (h : toString i = toString j) : i = j := by
  have hdigits : Nat.toDigits 10 i = Nat.toDigits 10 j := by
    rw [← Nat.toList_repr, ← Nat.toList_repr]
    exact congrArg String.toList h
  rw [← Nat.ofDigitChars_ten_toDigits (n := i), hdigits, Nat.ofDigitChars_ten_toDigits]

/-- The properties of an array with elements are those at its indices. -/
theorem property_array_eq_some {xs : List Js} {name : String} {value : Js} :
    (array xs).property name = some value ↔ ∃ i : ℕ, toString i = name ∧ xs[i]? = some value := by
  rw [property, Option.map_eq_some_iff]
  constructor
  · rintro ⟨⟨_, i⟩, hfind, rfl⟩
    exact ⟨i, by simpa using List.find?_some hfind,
      List.mem_zipIdx_iff_getElem?.mp (List.mem_of_find?_eq_some hfind)⟩
  · rintro ⟨i, rfl, hi⟩
    have hmem : (value, i) ∈ xs.zipIdx := List.mem_zipIdx_iff_getElem?.mpr hi
    cases hfind : xs.zipIdx.find? fun p => toString p.2 = toString i with
    | none => exact absurd (List.find?_eq_none.mp hfind _ hmem) (by simp)
    | some found =>
      have hindex : found.2 = i := toString_nat_inj (by simpa using List.find?_some hfind)
      have hfound := List.mem_zipIdx_iff_getElem?.mp (List.mem_of_find?_eq_some hfind)
      rw [hindex, hi] at hfound
      exact ⟨found, rfl, (Option.some.inj hfound).symm⟩

/-- What `\s` stands for, and what `trim` takes away -/
def isSpace (c : Char) : Bool :=
  let n := c.toNat
  (0x09 ≤ n ∧ n ≤ 0x0d) || n = 0x20 || n = 0xa0 || n = 0x1680 || (0x2000 ≤ n ∧ n ≤ 0x200a) ||
    n = 0x2028 || n = 0x2029 || n = 0x202f || n = 0x205f || n = 0x3000 || n = 0xfeff

def trim (s : String) : String := String.ofList (Trimming.trim isSpace s.toList)

theorem isSpace_visible {c : Char} (h : 0x20 < c.toNat ∧ c.toNat < 0x80) : isSpace c = false := by
  simp only [isSpace, Bool.or_eq_false_iff, decide_eq_false_iff_not]
  omega

/-- A text without white space is left alone. -/
theorem trim_of_forall {cs : List Char} (h : ∀ c ∈ cs, isSpace c = false) :
    trim (String.ofList cs) = String.ofList cs := by
  have htrimmed : Trimmed isSpace cs :=
    ⟨fun c hc => h c (List.mem_of_head? hc), fun c hc => h c (List.mem_of_getLast? hc)⟩
  rw [trim, String.toList_ofList, htrimmed.trim_eq]

theorem trim_trim (s : String) : trim (trim s) = trim s := by
  rw [trim, trim, String.toList_ofList, Trimming.trim_trim]

end Js

/-- `toLowerCase`: it changes no white space, and makes none of anything else. -/
structure Casing where
  lower : String → String
  lower_trim : ∀ s, Js.trim (lower s) = lower (Js.trim s)

namespace Casing

theorem isSpace_toLower (c : Char) : Js.isSpace c.toLower = Js.isSpace c := by
  by_cases hupper : c.val ≥ 'A'.val ∧ c.val ≤ 'Z'.val
  · have hval : 65 ≤ c.toNat ∧ c.toNat ≤ 90 := by
      simpa [UInt32.le_iff_toNat_le] using hupper
    have hlower : c.toLower.toNat = c.toNat + 32 := by
      have hd : ('a'.val - 'A'.val).toNat = 32 := rfl
      have hc : c.val.toNat = c.toNat := rfl
      rw [Char.toLower, dif_pos hupper, Char.toNat, UInt32.toNat_add, hd, hc]
      omega
    rw [Js.isSpace_visible (by omega), Js.isSpace_visible (by omega)]
  · rw [Char.toLower, dif_neg hupper]

/-- Lower case of ASCII letters -/
def ascii : Casing where
  lower s := String.ofList (s.toList.map Char.toLower)
  lower_trim s := by
    rw [Js.trim, String.toList_ofList, trim_map isSpace_toLower, Js.trim, String.toList_ofList]

end Casing

end CitraFlows
