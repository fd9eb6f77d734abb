import ExploreCpp.Machine
import Mathlib.Data.List.Basic

/-! Conversations in which whatever is asked is answered, part by part.

One side asks and waits. The other answers, as much at a time as is taken, and then waits
for the next question; it may also leave. What has been told is the answers to what has been
asked, up to what is left of the last (`Honest`). -/
namespace ExploreCpp

inductive Turn (β : Type) where
  | asks
  /-- With what is left to tell. -/
  | answers (left : List β)
  | ended
deriving DecidableEq, Repr

structure Conversation (α β : Type) where
  turn : Turn β
  asked : List α
  told : List β

inductive Move (α : Type) where
  | ask (question : α)
  | tell (n : Nat)
  | leave
deriving DecidableEq, Repr

/-- Who is next when this is left to tell. -/
def Turn.telling {β : Type} : List β → Turn β
  | [] => .asks
  | left => .answers left

namespace Conversation
variable {α β : Type}

def start : Conversation α β := ⟨.asks, [], []⟩

section
variable (answer : α → List β)

def machine : Machine (Conversation α β) (Move α) where
  step
    | ⟨.asks, asked, told⟩, .ask question => some ⟨.telling (answer question), asked ++ [question], told⟩
    | ⟨.answers left, asked, told⟩, .tell n =>
      if n ≤ left.length then some ⟨.telling (left.drop n), asked, told ++ left.take n⟩ else none
    | ⟨.asks, asked, told⟩, .leave | ⟨.answers _, asked, told⟩, .leave => some ⟨.ended, asked, told⟩
    | _, _ => none

structure Honest (c : Conversation α β) : Prop where
  /-- All of it when the next question is waited for. -/
  whole : c.turn = .asks → c.told = c.asked.flatMap answer
  rest : ∀ left, c.turn = .answers left → c.told ++ left = c.asked.flatMap answer
  begun : c.told <+: c.asked.flatMap answer
  /-- Only the last answer may be cut off. -/
  former : c.asked.dropLast.flatMap answer <+: c.told

variable {answer}

theorem honest_start : Honest answer start := ⟨fun _ => rfl, nofun, List.prefix_rfl, List.prefix_rfl⟩

theorem step_tell (asked : List α) (told left : List β) (n : Nat) :
    (machine answer).step ⟨.answers left, asked, told⟩ (.tell n) =
      if n ≤ left.length then some ⟨.telling (left.drop n), asked, told ++ left.take n⟩ else none := rfl

theorem telling_cases (left : List β) :
    (left = [] ∧ Turn.telling left = .asks) ∨ (left ≠ [] ∧ Turn.telling left = .answers left) := by
  cases left with
  | nil => exact .inl ⟨rfl, rfl⟩
  | cons b left => exact .inr ⟨List.cons_ne_nil _ _, rfl⟩

/-- What is told so far and what is left. -/
theorem honest_telling {asked : List α} {told left : List β} (h : told ++ left = asked.flatMap answer)
    (hformer : asked.dropLast.flatMap answer <+: told) : Honest answer ⟨.telling left, asked, told⟩ := by
  rcases telling_cases left with ⟨hnil, hturn⟩ | ⟨hne, hturn⟩
  · rw [hturn]
    rw [hnil, List.append_nil] at h
    exact ⟨fun _ => h, nofun, h ▸ List.prefix_rfl, hformer⟩
  · rw [hturn]
    refine ⟨nofun, ?_, ⟨left, h⟩, hformer⟩
    intro left' hleft
    rw [← Turn.answers.inj hleft]
    exact h

theorem Honest.step {c c' : Conversation α β} {move : Move α} (h : Honest answer c)
    (hs : (machine answer).step c move = some c') : Honest answer c' := by
  obtain ⟨turn, asked, told⟩ := c
  cases move with
  | ask question =>
    cases turn with
    | asks =>
      have hwhole : told = asked.flatMap answer := h.whole rfl
      obtain rfl := Option.some.inj hs
      apply honest_telling
      · rw [hwhole, List.flatMap_append, List.flatMap_singleton]
      · have hlast : (asked ++ [question]).dropLast.flatMap answer = told := by rw [List.dropLast_concat, hwhole]
        exact hlast ▸ List.prefix_rfl
    | answers left => cases hs
    | ended => cases hs
  | tell n =>
    cases turn with
    | asks => cases hs
    | answers left =>
      have hrest : told ++ left = asked.flatMap answer := h.rest left rfl
      by_cases hn : n ≤ left.length
      · rw [step_tell, if_pos hn] at hs
        obtain rfl := Option.some.inj hs
        apply honest_telling
        · rw [List.append_assoc, List.take_append_drop]
          exact hrest
        · exact h.former.trans (List.prefix_append _ _)
      · rw [step_tell, if_neg hn] at hs
        cases hs
    | ended => cases hs
  | leave =>
    have hended : c' = ⟨.ended, asked, told⟩ := by
      cases turn with
      | asks | answers left => exact (Option.some.inj hs).symm
      | ended => cases hs
    rw [hended]
    exact ⟨nofun, nofun, h.begun, h.former⟩

theorem honest {c : Conversation α β} (h : (machine answer).Reaches start c) : Honest answer c :=
  h.invariant (fun _ _ _ hc hs => hc.step hs) honest_start

end

end Conversation

end ExploreCpp
