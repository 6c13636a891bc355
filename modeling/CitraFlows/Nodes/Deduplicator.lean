-- SUMMARY: Which records a deduplicator drops, and when they are the ones with the key fields and values of an earlier record.
import CitraFlows.Assistant.Json
import CitraFlows.Lib.Deduplication
import CitraFlows.Nodes.Logic
import Mathlib.Data.List.SplitOn

/-!
# The deduplicator

`DeduplicatorNode` takes two records for duplicates if the values of their key fields are written
alike: the tuple of their texts does not say whose values they are. Records and values are any
Python objects; `Objects` says what the node makes of them.
-/

namespace CitraFlows

open Python
open Deduplication (place representatives sameSig)

namespace Deduplicator

/-- What the node asks of records and values. -/
structure Objects (ρ V : Type) where
  /-- `rec.get(k)`, where `rec` is a dict with that key -/
  field : ρ → String → Option V
  /-- `json.dumps(value, sort_keys=True, default=str)` -/
  dumps : V → Except PyError String
  /-- `==` -/
  eq : V → V → Bool

section

variable {ρ V : Type} (obj : Objects ρ V) (keys : List String)

/-- `present` -/
def present (rec : ρ) : List String := keys.filter fun k => (obj.field rec k).isSome

/-- The values of the key fields, written out -/
def texts (rec : ρ) : Except PyError (List String) := (keys.filterMap (obj.field rec)).mapM obj.dumps

/-- `_key_for` -/
def keyFor (rec : ρ) : Except PyError (Option (List String)) :=
  if (present obj keys rec).isEmpty then .ok none else (texts obj keys rec).map some

/-- `order` and `index_by_key` -/
structure Slots (ρ : Type) where
  order : List ρ := []
  indexByKey : List (List String × Nat) := []

/-- The body of `for rec in records` -/
def slot (keep : String) (s : Slots ρ) (rec : ρ) : Except PyError (Slots ρ) :=
  match keyFor obj keys rec with
  | .error e => .error e
  | .ok none => .ok { s with order := s.order ++ [rec] }
  | .ok (some sig) =>
      match s.indexByKey.lookup sig with
      | none =>
          .ok { order := s.order ++ [rec], indexByKey := s.indexByKey ++ [(sig, s.order.length)] }
      | some i => .ok (if keep = "last" then { s with order := s.order.set i rec } else s)

/-- The records that are left, in the order of their slots -/
def dedupe (keep : String) (records : List ρ) : Except PyError (List ρ) :=
  (records.foldlM (slot obj keys keep) {}).map Slots.order

end

/-! ## The node on JSON values -/

/-- A character of a string as `json.dumps` writes it -/
def dumpsChar (c : Char) : List Char :=
  let unicode (n : Nat) : List Char :=
    '\\' :: 'u' :: [n / 0x1000 % 16, n / 0x100 % 16, n / 0x10 % 16, n % 16].map Nat.digitChar
  let n := c.toNat
  if c = '"' ∨ c = '\\' then ['\\', c]
  else if c = '\n' then ['\\', 'n']
  else if c = '\r' then ['\\', 'r']
  else if c = '\t' then ['\\', 't']
  else if n = 0x08 then ['\\', 'b']
  else if n = 0x0c then ['\\', 'f']
  else if 0x20 ≤ n ∧ n ≤ 0x7e then [c]
  else if n < 0x10000 then unicode n
  else unicode (0xd800 + (n - 0x10000) / 0x400) ++ unicode (0xdc00 + (n - 0x10000) % 0x400)

def dumpsStr (s : String) : String := String.ofList ('"' :: s.toList.flatMap dumpsChar ++ ['"'])

mutual

/-- `json.dumps(value, sort_keys=True)` -/
def dumps : Value → String
  | .none => "null"
  | .bool b => if b then "true" else "false"
  | .int n => toString n
  | .float x => x.repr
  | .str s => dumpsStr s
  | .list xs => "[" ++ ", ".intercalate (dumpsList xs) ++ "]"
  | .dict fields =>
      "\x7b" ++
        ", ".intercalate (((dumpsFields fields).insertionSort (·.1 ≤ ·.1)).map fun p =>
          dumpsStr p.1 ++ ": " ++ p.2) ++ "\x7d"

private def dumpsList : List Value → List String
  | [] => []
  | v :: vs => dumps v :: dumpsList vs

private def dumpsFields : List (String × Value) → List (String × String)
  | [] => []
  | p :: ps => dumpsField p :: dumpsFields ps

private def dumpsField : String × Value → String × String
  | (k, v) => (k, dumps v)

end

def jsonObjects : Objects Value Value where
  field rec k := rec.asDict.bind (Value.field · k)
  dumps v := .ok (dumps v)
  eq := Value.eq

/-- The parts of the field `key_fields`: a list, or a text with commas -/
def keyParts : Value → List (List Char)
  | .list xs => xs.map fun k => k.text.toList
  | v => v.text.toList.splitOn ','

/-- `keys` -/
def keyFields (rawKeys : Value) : List String :=
  (((keyParts rawKeys).map strip).filter fun part => !part.isEmpty).map String.ofList

/-- `(ctx.config.get("keep") or "first").lower()` -/
def keepMode (config : List (String × Value)) : Except PyError String :=
  let keep := Value.getD config "keep"
  if keep.truthy then
    match keep with
    | .str s => .ok (String.ofList (lower s.toList))
    | v => .error (.attributeError v.typeName "lower")
  else .ok "first"

/-- `DeduplicatorNode.execute` -/
def execute (ctx : NodeContext) : Except PyError Value := do
  let some rawKeys := Value.field ctx.config "key_fields" | throw (.keyError "key_fields")
  let keep ← keepMode ctx.config
  let order ← dedupe jsonObjects (keyFields rawKeys) keep ctx.items
  return makeOutput order
    [("count", .int order.length), ("removed", .int (ctx.items.length - order.length))]

example : keyFields (.str " email, ,name") = ["email", "name"] := by decide +kernel

example : dumps (.dict [("b", .list [.int 1, .str "a\"b"]), ("a", .none)]) =
    "\x7b\"a\": null, \"b\": [1, \"a\\\"b\"]\x7d" := by decide +kernel

/-! ## A pass over the records -/

section

variable {ρ V : Type} {obj : Objects ρ V} {keys : List String} {keep : String}
  {records order : List ρ}

/-- The signature of a record, if it has one -/
def sigOf (obj : Objects ρ V) (keys : List String) (rec : ρ) : Option (List String) :=
  (keyFor obj keys rec).toOption.join

/-- `json.dumps` can write the key fields of the record. -/
def Writable (obj : Objects ρ V) (keys : List String) (rec : ρ) : Prop :=
  ∃ sig, keyFor obj keys rec = .ok sig

/-- `index_by_key` leads to the slots. -/
def Indexed (obj : Objects ρ V) (keys : List String) (s : Slots ρ) : Prop :=
  ∀ sig, s.indexByKey.lookup sig = s.order.findIdx? fun rec => decide (sigOf obj keys rec = some sig)

theorem findIdx?_set {α : Type} {p : α → Bool} {l : List α} {i : Nat} {a : α}
    (h : ∀ b, l[i]? = some b → p b = p a) : (l.set i a).findIdx? p = l.findIdx? p := by
  induction l generalizing i with
  | nil => rfl
  | cons b l ih =>
      cases i with
      | zero => rw [List.set_cons_zero, List.findIdx?_cons, List.findIdx?_cons, h b rfl]
      | succ i =>
          rw [List.set_cons_succ, List.findIdx?_cons, List.findIdx?_cons, ih fun c hc => h c hc]

/-- One record takes its slot. -/
theorem slot_place (keep : String) {s : Slots ρ} (hindexed : Indexed obj keys s) {rec : ρ}
    (h : Writable obj keys rec) :
    ∃ s', slot obj keys keep s rec = .ok s' ∧
      s'.order = place (sigOf obj keys) (keep = "last") s.order rec ∧ Indexed obj keys s' := by
  obtain ⟨sig, hkey⟩ := h
  have hsig : sigOf obj keys rec = sig := by
    rw [sigOf, hkey]
    rfl
  unfold slot
  rw [hkey]
  cases sig with
  | none =>
      have hsame : (fun o => sameSig (sigOf obj keys) o rec) = fun _ => false := by
        funext o
        rw [sameSig, hsig]
        cases sigOf obj keys o <;> rfl
      refine ⟨_, rfl, ?_, fun sig => ?_⟩
      · rw [place, hsame, List.findIdx?_eq_none_iff.mpr fun _ _ => rfl]
      · rw [hindexed sig, List.findIdx?_append, List.findIdx?_singleton, hsig]
        simp
  | some sig =>
      have hsame : (fun o => sameSig (sigOf obj keys) o rec) =
          fun o => decide (sigOf obj keys o = some sig) := by
        funext o
        rw [sameSig, hsig]
        cases sigOf obj keys o <;> rfl
      have hplace := hindexed sig
      cases hlookup : s.indexByKey.lookup sig with
      | none =>
          rw [hlookup] at hplace
          simp only [hlookup]
          refine ⟨_, rfl, by rw [place, hsame, ← hplace], fun sig' => ?_⟩
          rw [List.lookup_append, List.findIdx?_append, hindexed sig', List.findIdx?_singleton, hsig]
          by_cases heq : sig' = sig
          · subst heq
            simp
          · have hbeq : (sig' == sig) = false := beq_eq_false_iff_ne.mpr heq
            have hne : sig ≠ sig' := Ne.symm heq
            simp [List.lookup_cons, hbeq, hne]
      | some i =>
          rw [hlookup] at hplace
          simp only [hlookup]
          refine ⟨_, rfl, ?_, ?_⟩
          · rw [place, hsame, ← hplace]
            by_cases hkeep : keep = "last" <;> simp [hkeep]
          · split
            next =>
              intro sig'
              -- the record comes into a slot of its own signature
              obtain ⟨hi, hfound, -⟩ := List.findIdx?_eq_some_iff_getElem.mp hplace.symm
              have hslot : sigOf obj keys s.order[i] = some sig := of_decide_eq_true hfound
              refine (hindexed sig').trans (findIdx?_set fun b hb => ?_).symm
              obtain ⟨-, rfl⟩ := List.getElem?_eq_some_iff.mp hb
              rw [hslot, hsig]
            next => exact hindexed

theorem dedupeFrom_ok {s : Slots ρ} (hindexed : Indexed obj keys s) (records : List ρ) :
    (records.foldlM (slot obj keys keep) s).map Slots.order = .ok order ↔
      (∀ rec ∈ records, Writable obj keys rec) ∧
        order = records.foldl (place (sigOf obj keys) (keep = "last")) s.order := by
  induction records generalizing s with
  | nil =>
      constructor
      · intro h
        cases h
        exact ⟨by simp, rfl⟩
      · rintro ⟨-, rfl⟩
        rfl
  | cons rec records ih =>
      rw [List.foldlM_cons, List.foldl_cons]
      by_cases hrec : Writable obj keys rec
      · obtain ⟨s', hslot, horder, hindexed'⟩ := slot_place keep hindexed hrec
        rw [hslot, ← horder]
        refine (ih hindexed').trans (and_congr_left fun _ => ?_)
        rw [List.forall_mem_cons]
        exact ⟨fun h => ⟨hrec, h⟩, fun h => h.2⟩
      · have herror : ∃ e, slot obj keys keep s rec = .error e := by
          unfold slot
          cases hkey : keyFor obj keys rec with
          | error e => exact ⟨e, rfl⟩
          | ok sig => exact absurd ⟨sig, hkey⟩ hrec
        obtain ⟨e, he⟩ := herror
        rw [he]
        constructor
        · intro h
          cases h
        · rintro ⟨hall, -⟩
          exact absurd (hall rec List.mem_cons_self) hrec

/-- The pass goes through if all records can be written, and gives each its slot. -/
theorem dedupe_ok_iff :
    dedupe obj keys keep records = .ok order ↔
      (∀ rec ∈ records, Writable obj keys rec) ∧
        order = records.foldl (place (sigOf obj keys) (keep = "last")) [] :=
  dedupeFrom_ok (fun _ => rfl) records

/-! ## Main results -/

section

variable (obj : Objects ρ V) (keys : List String)

/-- The records have the same value for the key. -/
def equalAt (rec rec' : ρ) (k : String) : Bool :=
  (obj.field rec k).any fun v => (obj.field rec' k).any (obj.eq v)

/-- The records have key fields, the same ones, and the same values for them. -/
def sameClass (rec rec' : ρ) : Bool :=
  !(present obj keys rec).isEmpty && decide (present obj keys rec = present obj keys rec') &&
    (present obj keys rec).all (equalAt obj rec rec')

/-- The output has one record of every class, and the node leaves it as it is. -/
def Deduplicates (keep : String) (records : List ρ) : Prop :=
  ∀ order, dedupe obj keys keep records = .ok order →
    order = representatives (sameClass obj keys) (keep = "last") [] records ∧
      dedupe obj keys keep order = .ok order

/-- The texts of two records with key fields tell which ones they are, and whether their values
are equal. -/
def Faithful (rec rec' : ρ) : Prop :=
  present obj keys rec ≠ [] → present obj keys rec' ≠ [] →
    ∀ ts ts', texts obj keys rec = .ok ts → texts obj keys rec' = .ok ts' →
      (ts = ts' → present obj keys rec = present obj keys rec') ∧
        (present obj keys rec = present obj keys rec' →
          (ts = ts' ↔ ∀ k ∈ present obj keys rec, equalAt obj rec rec' k = true))

end

variable {rec rec' : ρ}

theorem sigOf_none (h : present obj keys rec = []) : sigOf obj keys rec = none := by
  rw [sigOf, keyFor, h]
  rfl

theorem sigOf_texts (h : present obj keys rec ≠ []) {ts : List String}
    (hts : texts obj keys rec = .ok ts) : sigOf obj keys rec = some ts := by
  have hne : ¬ (present obj keys rec).isEmpty = true := fun hempty => h (List.isEmpty_iff.mp hempty)
  rw [sigOf, keyFor, if_neg hne, hts]
  rfl

theorem Writable.texts (h : Writable obj keys rec) (hne : present obj keys rec ≠ []) :
    ∃ ts, texts obj keys rec = .ok ts := by
  obtain ⟨sig, hsig⟩ := h
  have hnonempty : ¬ (present obj keys rec).isEmpty = true :=
    fun hempty => hne (List.isEmpty_iff.mp hempty)
  rw [keyFor, if_neg hnonempty] at hsig
  cases hts : Deduplicator.texts obj keys rec with
  | error e =>
      rw [hts] at hsig
      cases hsig
  | ok ts => exact ⟨ts, rfl⟩

theorem sameClass_iff :
    sameClass obj keys rec rec' = true ↔
      present obj keys rec ≠ [] ∧ present obj keys rec = present obj keys rec' ∧
        ∀ k ∈ present obj keys rec, equalAt obj rec rec' k = true := by
  simp [sameClass, and_assoc]

/-- For records that can be written, the signature tells the class. -/
theorem faithful_iff_same (h : Writable obj keys rec) (h' : Writable obj keys rec') :
    Faithful obj keys rec rec' ↔
      sameClass obj keys rec rec' = sameSig (sigOf obj keys) rec rec' := by
  rw [Bool.eq_iff_iff, sameClass_iff, Deduplication.sameSig_iff]
  by_cases hne : present obj keys rec = []
  · simp [Faithful, hne, sigOf_none hne]
  · by_cases hne' : present obj keys rec' = []
    · simp [Faithful, hne', sigOf_none hne', hne]
    · obtain ⟨ts, hts⟩ := h.texts hne
      obtain ⟨ts', hts'⟩ := h'.texts hne'
      rw [sigOf_texts hne hts, sigOf_texts hne' hts']
      constructor
      · intro hfaithful
        obtain ⟨hfields, hvalues⟩ := hfaithful hne hne' ts ts' hts hts'
        constructor
        · rintro ⟨-, hpresent, hequal⟩
          exact ⟨ts, rfl, congrArg some ((hvalues hpresent).mpr hequal).symm⟩
        · rintro ⟨t, ht, ht'⟩
          cases ht
          cases ht'
          have hpresent := hfields rfl
          exact ⟨hne, hpresent, (hvalues hpresent).mp rfl⟩
      · intro hiff _ _ us us' hus hus'
        rw [hts] at hus
        rw [hts'] at hus'
        cases hus
        cases hus'
        refine ⟨fun heq => ?_, fun hpresent => ⟨fun heq => ?_, fun hequal => ?_⟩⟩
        · exact (hiff.mpr ⟨ts, rfl, congrArg some heq.symm⟩).2.1
        · exact (hiff.mpr ⟨ts, rfl, congrArg some heq.symm⟩).2.2
        · obtain ⟨t, ht, ht'⟩ := hiff.mp ⟨hne, hpresent, hequal⟩
          cases ht
          cases ht'
          rfl

theorem length_representatives_pair (same : ρ → ρ → Bool) (last : Bool) (rec rec' : ρ) :
    (representatives same last [] [rec, rec']).length = if same rec rec' then 1 else 2 := by
  rw [representatives, representatives, representatives]
  cases hsame : same rec rec' <;> simp [hsame]

/-- The lists that are made of the records are deduplicated if and only if the texts of every two
of them are faithful. -/
theorem deduplicates_iff (obj : Objects ρ V) (keys : List String) (keep : String)
    (records : List ρ) :
    (∀ sub, sub.Sublist records → Deduplicates obj keys keep sub) ↔
      records.Pairwise (Faithful obj keys) := by
  constructor
  · intro h
    rw [List.pairwise_iff_forall_sublist]
    intro rec rec' hsub hne hne' ts ts' hts hts'
    have hwritable : ∀ r ∈ [rec, rec'], Writable obj keys r := by
      have hkey : ∀ r us, texts obj keys r = .ok us → Writable obj keys r := by
        intro r us hus
        unfold Writable keyFor
        split
        next => exact ⟨none, rfl⟩
        next => exact ⟨some us, by rw [hus]; rfl⟩
      simpa using ⟨hkey rec ts hts, hkey rec' ts' hts'⟩
    have hsame : sameClass obj keys rec rec' = sameSig (sigOf obj keys) rec rec' := by
      obtain ⟨hrepresentatives, -⟩ := h _ hsub _ (dedupe_ok_iff.mpr ⟨hwritable, rfl⟩)
      rw [Deduplication.foldl_place_nil] at hrepresentatives
      have hlength := congrArg List.length hrepresentatives
      rw [length_representatives_pair, length_representatives_pair] at hlength
      cases hclass : sameClass obj keys rec rec' <;>
        cases hsig : sameSig (sigOf obj keys) rec rec' <;> simp [hclass, hsig] at hlength ⊢
    exact (faithful_iff_same (hwritable rec (by simp)) (hwritable rec' (by simp))).mpr hsame hne hne' ts
      ts' hts hts'
  · intro h sub hsub order hok
    obtain ⟨hwritable, rfl⟩ := dedupe_ok_iff.mp hok
    have hpairs : sub.Pairwise fun rec rec' =>
        sameSig (sigOf obj keys) rec rec' = sameClass obj keys rec rec' :=
      (h.sublist hsub).imp_of_mem fun hrec hrec' hfaithful =>
        ((faithful_iff_same (hwritable _ hrec) (hwritable _ hrec')).mp hfaithful).symm
    refine ⟨?_, dedupe_ok_iff.mpr ⟨fun rec hrec => ?_, ?_⟩⟩
    · rw [Deduplication.foldl_place_nil]
      exact Deduplication.representatives_congr (by simp) hpairs
    · rcases Deduplication.mem_foldl_place hrec with hnil | hmem
      · cases hnil
      · exact hwritable rec hmem
    · have hdistinct : Deduplication.Distinct (sigOf obj keys)
          ([] ++ sub.foldl (place (sigOf obj keys) (keep = "last")) []) :=
        Deduplication.distinct_foldl_place List.Pairwise.nil sub
      exact (Deduplication.foldl_place_distinct hdistinct).symm

/-- A record with an `a` and one with a `b` are taken for duplicates. -/
theorem other_field_dropped :
    ¬ ∀ (keys : List String) (keep : String) (records : List Value),
      Deduplicates jsonObjects keys keep records := by
  intro h
  have hdropped := (h ["a", "b"] "first" [.dict [("a", .bool true)], .dict [("b", .bool true)]]
    [.dict [("a", .bool true)]] rfl).1
  have hlength := congrArg List.length hdropped
  revert hlength
  decide +kernel

end

end Deduplicator

end CitraFlows
