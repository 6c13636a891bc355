-- SUMMARY: Chats in which the model calls tools: what is still to be answered after a message, and chats in which everything was.
import Mathlib.Data.List.Basic

/-!
# Chats with tool calls

A message of the model may call tools. Each call has to be answered by a message of its own, in the
order of the calls, before anybody says anything else. A service refuses a chat that breaks this
rule, or that ends before the last call is answered.
-/

namespace ToolChat

/-- What a message does: it says something, it calls tools, or it answers a call. -/
inductive Turn (ι : Type*) where
  | speaks
  | asks (calls : List ι)
  | answers (call : ι)

variable {ι : Type*}

/-! ## Calls and answers -/

/-- The calls that a message makes. -/
def Turn.asked : Turn ι → List ι
  | .asks calls => calls
  | _ => []

/-- The calls that a message answers. -/
def Turn.answered : Turn ι → List ι
  | .answers call => [call]
  | _ => []

def asked (ts : List (Turn ι)) : List ι := ts.flatMap Turn.asked

def answered (ts : List (Turn ι)) : List ι := ts.flatMap Turn.answered

@[simp] theorem asked_append (ts us : List (Turn ι)) : asked (ts ++ us) = asked ts ++ asked us :=
  List.flatMap_append

@[simp] theorem answered_append (ts us : List (Turn ι)) :
    answered (ts ++ us) = answered ts ++ answered us :=
  List.flatMap_append

variable [DecidableEq ι]

/-! ## The rule -/

/-- The calls that are open after a message, from those that were open before it; `none` if it is
not the time for this message. -/
def Turn.next : Turn ι → List ι → Option (List ι)
  | .speaks, [] => some []
  | .asks calls, [] => some calls
  | .answers call, c :: waiting => if c = call then some waiting else none
  | _, _ => none

/-- The calls that are open after a chat. -/
def waiting (ts : List (Turn ι)) : Option (List ι) := ts.foldlM (fun w t => t.next w) []

/-- The chat keeps to the rule, and every call has its answer. -/
def Complete (ts : List (Turn ι)) : Prop := waiting ts = some []

instance (ts : List (Turn ι)) : Decidable (Complete ts) :=
  inferInstanceAs (Decidable (waiting ts = some []))

variable {ts us : List (Turn ι)} {calls w : List ι} {call : ι}

theorem waiting_append (h : waiting ts = some w) (us : List (Turn ι)) :
    waiting (ts ++ us) = us.foldlM (fun w t => t.next w) w := by
  unfold waiting at h ⊢
  rw [List.foldlM_append, h]
  rfl

theorem waiting_concat (h : waiting ts = some w) (t : Turn ι) : waiting (ts ++ [t]) = t.next w := by
  rw [waiting_append h]
  simp

theorem Complete.nil : Complete ([] : List (Turn ι)) := rfl

theorem Complete.speaks (h : Complete ts) : Complete (ts ++ [.speaks]) := waiting_concat h _

theorem Complete.of_speaks (h : ∀ t ∈ ts, t = .speaks) : Complete ts := by
  induction ts with
  | nil => rfl
  | cons t ts ih =>
      obtain rfl := h t (by simp)
      exact ih fun u hu => h u (List.mem_cons_of_mem _ hu)

theorem Complete.asks (h : Complete ts) (calls : List ι) :
    waiting (ts ++ [.asks calls]) = some calls :=
  waiting_concat h _

theorem waiting_answers (h : waiting ts = some (call :: w)) :
    waiting (ts ++ [.answers call]) = some w := by
  rw [waiting_concat h]
  exact if_pos rfl

/-- The open calls may be answered one after the other. -/
theorem waiting_answers_all (h : waiting ts = some (calls ++ w)) :
    waiting (ts ++ calls.map .answers) = some w := by
  induction calls generalizing ts with
  | nil => simpa using h
  | cons call calls ih =>
      have hone : waiting (ts ++ [.answers call]) = some (calls ++ w) := waiting_answers h
      simpa [List.append_assoc] using ih hone

/-- A message that calls tools, with all its answers. -/
theorem Complete.exchange (h : Complete ts) (calls : List ι) :
    Complete (ts ++ .asks calls :: calls.map .answers) := by
  have hasks : waiting (ts ++ [.asks calls]) = some (calls ++ []) := by
    rw [List.append_nil]
    exact h.asks calls
  have hall := waiting_answers_all hasks
  rw [List.append_assoc] at hall
  exact hall

/-! ## Every call is answered once -/

/-- What was open and what is asked is what is answered and what is open in the end. -/
theorem asked_eq_from {v : List ι} (h : ts.foldlM (fun w t => t.next w) v = some w) :
    v ++ asked ts = answered ts ++ w := by
  induction ts generalizing v with
  | nil =>
      cases h
      simp [asked, answered]
  | cons t ts ih =>
      rw [List.foldlM_cons] at h
      obtain ⟨u, ht, hu⟩ := Option.bind_eq_some_iff.mp h
      have hrest : v ++ t.asked = t.answered ++ u := by
        cases t with
        | speaks =>
            cases v with
            | nil =>
                cases ht
                rfl
            | cons c v => cases ht
        | asks calls =>
            cases v with
            | nil =>
                cases ht
                rfl
            | cons c v => cases ht
        | answers call =>
            cases v with
            | nil => cases ht
            | cons c v =>
                obtain ⟨rfl, rfl⟩ : c = call ∧ v = u := by simpa [Turn.next] using ht
                simp [Turn.asked, Turn.answered]
      calc v ++ asked (t :: ts) = v ++ t.asked ++ asked ts := by simp [asked]
        _ = t.answered ++ (u ++ asked ts) := by rw [hrest, List.append_assoc]
        _ = t.answered ++ (answered ts ++ w) := by rw [ih hu]
        _ = answered (t :: ts) ++ w := by simp [answered]

/-- In a complete chat every call is answered exactly once, in the order of the calls. -/
theorem Complete.asked_eq (h : Complete ts) : asked ts = answered ts := by
  simpa using asked_eq_from h

end ToolChat
