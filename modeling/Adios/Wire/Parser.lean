import Mathlib.Data.List.Basic
import Mathlib.Tactic.Common

/-!
# Wire — parsers over the unread bytes of a buffer

A parser reads from the bytes between the cursor and the end of the buffer, and either stops
at a fault or returns a value and the bytes it has not read. Two judgements carry the proofs:

* `Parses p inp a` — on any buffer that starts with `inp`, the parser reads exactly `inp` and
  returns `a`;
* `Yields p Q` — whatever the parser returns, on any buffer, satisfies `Q`.

Each has one rule for every way of building a parser: `pure`, `>>=` and the counted loop
`loop`.
-/

namespace Wire

open List

abbrev Parser (ε α : Type) := StateT (List UInt8) (Except ε) α

namespace Parser

variable {ε α β σ : Type}

def fail (e : ε) : Parser ε α := fun _ => .error e

/-- The next `n` bytes; `e` is the fault of a read past the end of the buffer. -/
def take (e : ε) (n : Nat) : Parser ε (List UInt8) := fun s =>
  if n ≤ s.length then .ok (s.take n, s.drop n) else .error e

/-- The next `n` bytes, which stay unread. -/
def peek (e : ε) (n : Nat) : Parser ε (List UInt8) := fun s =>
  if n ≤ s.length then .ok (s.take n, s) else .error e

/-- Move the cursor over `n` bytes. -/
def skip (n : Nat) : Parser ε Unit := fun s => .ok ((), s.drop n)

def remaining : Parser ε Nat := fun s => .ok (s.length, s)

def measured (p : Parser ε α) : Parser ε (α × Nat) := do
  let before ← remaining
  let a ← p
  let after ← remaining
  return (a, before - after)

def require (e : ε) (c : Prop) [Decidable c] : Parser ε Unit := if c then pure () else fail e

def loop : Nat → (σ → Parser ε σ) → σ → Parser ε σ
  | 0, _, s => pure s
  | n + 1, step, s => step s >>= loop n step

@[simp] theorem loop_zero (step : σ → Parser ε σ) (s : σ) :
    loop 0 step s = pure s := rfl

@[simp] theorem loop_succ (n : Nat) (step : σ → Parser ε σ) (s : σ) :
    loop (n + 1) step s = step s >>= loop n step := rfl

theorem bind_apply (p : Parser ε α) (f : α → Parser ε β) (s : List UInt8) :
    (p >>= f) s = match p s with
      | .ok (a, s') => f a s'
      | .error e => .error e := by
  show (StateT.bind p f) s = _
  unfold StateT.bind
  cases p s <;> rfl

theorem foldl_snoc {γ : Type} (f : γ → β) (xs : List γ) (acc : List β) :
    xs.foldl (fun acc x => acc ++ [f x]) acc = acc ++ xs.map f := by
  induction xs generalizing acc with
  | nil => simp
  | cons x xs ih => simp [ih]

/-! ## What a parser does on a given image -/

/-- On any buffer that starts with `inp` the parser reads exactly `inp` and returns `a`. -/
def Parses (p : Parser ε α) (inp : List UInt8) (a : α) : Prop :=
  ∀ rest, p (inp ++ rest) = .ok (a, rest)

namespace Parses

theorem pure (a : α) : Parses (Pure.pure a : Parser ε α) [] a := fun _ => rfl

variable {p : Parser ε α} {x y : List UInt8} {a : α} {b : β} {γ : Type}

theorem bind {f : α → Parser ε β} (hp : Parses p x a) (hf : Parses (f a) y b) :
    Parses (p >>= f) (x ++ y) b := by
  intro rest
  rw [bind_apply, append_assoc, hp]
  exact hf rest

theorem bind_pure {f : α → β} (hp : Parses p x a) (hb : f a = b) :
    Parses (p >>= fun a => Pure.pure (f a)) x b := by
  subst hb
  intro rest
  rw [bind_apply, hp]
  rfl

theorem bind_nil {f : α → Parser ε β} (hp : Parses p [] a) (hf : Parses (f a) y b) :
    Parses (p >>= f) y b := by
  simpa using hp.bind hf

theorem take (e : ε) {n : Nat} {bs : List UInt8} (h : bs.length = n) :
    Parses (Parser.take e n) bs bs := by
  subst h
  intro rest
  simp [Parser.take]

theorem require (e : ε) {c : Prop} [Decidable c] (h : c) :
    Parses (Parser.require e c) [] () := by
  intro rest
  rw [Parser.require, if_pos h]
  rfl

theorem congr {b : α} (h : Parses p x a) (hx : x = y) (ha : a = b) : Parses p y b := by
  subst hx ha
  exact h

theorem remaining {f : Nat → Parser ε β} (h : ∀ n, y.length ≤ n → Parses (f n) y b) :
    Parses (Parser.remaining >>= f) y b := by
  intro rest
  rw [bind_apply]
  exact h (y ++ rest).length (by simp) rest

theorem measured (h : Parses p x a) :
    Parses (Parser.measured p) x (a, x.length) := by
  intro rest
  have hlen : (x ++ rest).length - rest.length = x.length := by
    rw [length_append, Nat.add_sub_cancel]
  show (Parser.remaining >>= _) (x ++ rest) = _
  rw [bind_apply]
  show (p >>= _) (x ++ rest) = _
  rw [bind_apply, h]
  show Except.ok ((a, (x ++ rest).length - rest.length), rest) = _
  rw [hlen]

theorem peek_skip {e : ε} {f : List UInt8 → Parser ε β} {n m : Nat} (hn : x.length = n) (hm : m = n)
    (hf : Parses (f x) y b) :
    Parses (Parser.peek e n >>= fun bs => Parser.skip m >>= fun _ => f bs) (x ++ y) b := by
  subst hn hm
  intro rest
  rw [append_assoc, bind_apply]
  simp only [Parser.peek, length_append, Nat.le_add_right, if_true, take_left]
  rw [bind_apply]
  simp only [Parser.skip, drop_left]
  exact hf rest

theorem unique {b : α} (ha : Parses p x a) (hb : Parses p x b) : a = b := by
  have h := (ha []).symm.trans (hb [])
  simpa using h

/-- **The counted loop.** The loop reads one element's image in each round; the step at `x` may
use what the elements before it have made of the state. -/
theorem loop (step : σ → Parser ε σ) (enc : γ → List UInt8) (upd : σ → γ → σ) (xs : List γ) (s : σ)
      (hstep : ∀ pre x post, xs = pre ++ x :: post → Parses (step (pre.foldl upd s)) (enc x) (upd
      (pre.foldl upd s) x)) :
    Parses (Parser.loop xs.length step s) (xs.flatMap enc) (xs.foldl upd s) := by
  induction xs generalizing s with
  | nil => exact Parses.pure s
  | cons x xs ih =>
    rw [length_cons, loop_succ, flatMap_cons, foldl_cons]
    refine (hstep [] x xs rfl).bind (ih (upd s x) ?_)
    intro pre y post hxs
    exact hstep (x :: pre) y post (by rw [hxs]; rfl)

theorem loop_append (p : List β → Parser ε α) (enc : γ → List UInt8) (f : γ → α) (g : α → β)
    (xs : List γ) (hstep : ∀ pre x post, xs = pre ++ x :: post → Parses (p (pre.map fun x => g (f
      x))) (enc x) (f x)) :
    Parses (Parser.loop xs.length (fun acc => p acc >>= fun a => Pure.pure (acc ++ [g a])) [])
      (xs.flatMap enc) (xs.map fun x => g (f x)) := by
  have h := loop (fun acc => p acc >>= fun a => Pure.pure (acc ++ [g a])) enc
    (fun acc x => acc ++ [g (f x)]) xs [] fun pre x post hxs => by
      rw [foldl_snoc, nil_append]
      exact bind_pure (hstep pre x post hxs) rfl
  rwa [foldl_snoc, nil_append] at h

theorem loop_forall₂ {images : List (List UInt8)} {as : List α} (h : Forall₂ (Parses p) images as) :
    Parses (Parser.loop as.length (fun acc => p >>= fun a => Pure.pure (acc ++ [a])) [])
      images.flatten as := by
  have hacc : ∀ acc, Parses (Parser.loop as.length (fun acc => p >>= fun a =>
      Pure.pure (acc ++ [a])) acc) images.flatten (acc ++ as) := by
    induction h with
    | nil =>
      intro acc
      rw [append_nil]
      exact Parses.pure acc
    | @cons _ a _ _ hp _ ih =>
      intro acc
      rw [length_cons, loop_succ, flatten_cons, append_cons]
      exact (hp.bind_pure rfl).bind (ih (acc ++ [a]))
  exact hacc []

theorem loop_append_idx (p : List β → Parser ε β) (enc : γ → List UInt8) (f : Nat → γ → β)
    (xs : List γ) (hstep : ∀ pre x post, xs = pre ++ x :: post → Parses (p (pre.mapIdx f)) (enc x)
      (f pre.length x)) :
    Parses (Parser.loop xs.length (fun acc => p acc >>= fun b => Pure.pure (acc ++ [b])) [])
      (xs.flatMap enc) (xs.mapIdx f) := by
  have hfold : ∀ (ys : List γ) (acc : List β), ys.foldl (fun acc x => acc ++ [f acc.length x]) acc =
      acc ++ ys.mapIdx fun j => f (acc.length + j) := by
    intro ys
    induction ys with
    | nil => simp
    | cons y ys ih => intro acc; simp [ih, mapIdx_cons, Nat.add_assoc, Nat.add_comm 1]
  have h := loop (fun acc => p acc >>= fun b => Pure.pure (acc ++ [b])) enc
    (fun acc x => acc ++ [f acc.length x]) xs [] fun pre x post hxs => by
      have hpre : pre.foldl (fun acc x => acc ++ [f acc.length x]) [] = pre.mapIdx f := by
        simp [hfold]
      rw [hpre, length_mapIdx]
      exact bind_pure (hstep pre x post hxs) rfl
  simpa [hfold] using h

end Parses

/-! ## When a parser fails on a given image -/

/-- On any buffer that starts with `inp` the parser stops with a fault. -/
def Fails (p : Parser ε α) (inp : List UInt8) : Prop :=
  ∀ rest, ∃ e, p (inp ++ rest) = .error e

namespace Fails

theorem bind_left {p : Parser ε α} {x : List UInt8} (h : Fails p x) (f : α → Parser ε β)
    (y : List UInt8) : Fails (p >>= f) (x ++ y) := by
  intro rest
  obtain ⟨e, he⟩ := h (y ++ rest)
  exact ⟨e, by rw [bind_apply, append_assoc, he]⟩

theorem bind_right {p : Parser ε α} {f : α → Parser ε β} {x y : List UInt8} {a : α}
    (hp : Parses p x a) (hf : Fails (f a) y) : Fails (p >>= f) (x ++ y) := by
  intro rest
  obtain ⟨e, he⟩ := hf rest
  exact ⟨e, by rw [bind_apply, append_assoc, hp]; exact he⟩

theorem require_bind (e : ε) {c : Prop} [Decidable c] (h : ¬c) (f : Unit → Parser ε β)
    (y : List UInt8) : Fails (Parser.require e c >>= f) y := by
  intro rest
  refine ⟨e, ?_⟩
  rw [bind_apply, Parser.require, if_neg h]
  rfl

theorem remaining {f : Nat → Parser ε β} {y : List UInt8} (h : ∀ n, y.length ≤ n → Fails (f n) y) :
    Fails (Parser.remaining >>= f) y := by
  intro rest
  rw [bind_apply]
  exact h (y ++ rest).length (by simp) rest

theorem loop {γ : Type} (step : σ → Parser ε σ) (enc : γ → List UInt8) (upd : σ → γ → σ)
    (pre : List γ) (x : γ) (post : List γ) (s : σ)
    (hstep : ∀ pre₁ y pre₂, pre = pre₁ ++ y :: pre₂ →
      Parses (step (pre₁.foldl upd s)) (enc y) (upd (pre₁.foldl upd s) y))
    (hfail : Fails (step (pre.foldl upd s)) (enc x)) :
    Fails (Parser.loop (pre ++ x :: post).length step s) ((pre ++ x :: post).flatMap enc) := by
  induction pre generalizing s with
  | nil =>
    rw [nil_append, length_cons, loop_succ, flatMap_cons]
    exact hfail.bind_left _ _
  | cons y pre ih =>
    rw [cons_append, length_cons, loop_succ, flatMap_cons]
    refine bind_right (hstep [] y pre rfl) (ih (upd s y) ?_ hfail)
    intro pre₁ z pre₂ hpre
    exact hstep (y :: pre₁) z pre₂ (by rw [hpre]; rfl)

theorem loop_append {γ : Type} (p : List β → Parser ε α) (enc : γ → List UInt8) (f : γ → α)
    (g : α → β) (pre : List γ) (x : γ) (post : List γ)
    (hstep : ∀ pre₁ y pre₂, pre = pre₁ ++ y :: pre₂ →
      Parses (p (pre₁.map fun x => g (f x))) (enc y) (f y))
    (hfail : Fails (p (pre.map fun x => g (f x))) (enc x)) :
    Fails (Parser.loop (pre ++ x :: post).length
      (fun acc => p acc >>= fun a => Pure.pure (acc ++ [g a])) [])
      ((pre ++ x :: post).flatMap enc) := by
  refine loop _ enc (fun acc x => acc ++ [g (f x)]) pre x post [] ?_ ?_
  · intro pre₁ y pre₂ hpre
    rw [foldl_snoc, nil_append]
    exact Parses.bind_pure (hstep pre₁ y pre₂ hpre) rfl
  · rw [foldl_snoc, nil_append]
    have h := hfail.bind_left (fun a => (Pure.pure (pre.map (fun x => g (f x)) ++ [g a]) :
      Parser ε (List β))) []
    rwa [append_nil] at h

end Fails

/-! ## What a parser can return at all -/

/-- Every value the parser returns satisfies `Q`. -/
def Yields (p : Parser ε α) (Q : α → Prop) : Prop :=
  ∀ inp a rest, p inp = .ok (a, rest) → Q a

namespace Yields

variable {Q : α → Prop} {R : β → Prop}

theorem pure {a : α} (h : Q a) : Yields (Pure.pure a : Parser ε α) Q := by
  intro inp b rest hb
  cases hb
  exact h

theorem bind {p : Parser ε α} {f : α → Parser ε β} (hp : Yields p Q)
    (hf : ∀ a, Q a → Yields (f a) R) : Yields (p >>= f) R := by
  intro inp b rest h
  rw [bind_apply] at h
  cases hr : p inp with
  | error e => rw [hr] at h; cases h
  | ok r =>
    obtain ⟨a, s⟩ := r
    rw [hr] at h
    exact hf a (hp inp a s hr) s b rest h

theorem bind' {p : Parser ε α} {f : α → Parser ε β} (hf : ∀ a, Yields (f a) R) :
    Yields (p >>= f) R :=
  bind (Q := fun _ => True) (fun _ _ _ _ => trivial) fun a _ => hf a

theorem fail (e : ε) : Yields (Parser.fail e : Parser ε α) Q := by
  intro inp a rest h
  cases h

theorem mono {p : Parser ε α} {Q' : α → Prop} (hp : Yields p Q) (h : ∀ a, Q a → Q' a) :
    Yields p Q' := fun inp a rest hr => h a (hp inp a rest hr)

theorem measured {p : Parser ε α} (hp : Yields p Q) :
    Yields (Parser.measured p) fun r => Q r.1 :=
  bind' fun _ => hp.bind fun _ ha => bind' fun _ => Yields.pure ha

theorem require {e : ε} {c : Prop} [Decidable c] : Yields (Parser.require e c) fun _ => c := by
  intro inp a rest h
  unfold Parser.require at h
  split at h
  · assumption
  · cases h

theorem ite {c : Prop} [Decidable c] {p q : Parser ε α} (hp : c → Yields p Q)
    (hq : ¬c → Yields q Q) : Yields (if c then p else q) Q := by
  split
  · exact hp ‹_›
  · exact hq ‹_›

theorem loop {I : σ → Prop} {step : σ → Parser ε σ} (hstep : ∀ s, I s → Yields (step s) I)
    (n : Nat) {s : σ} (hs : I s) : Yields (Parser.loop n step s) I := by
  induction n generalizing s with
  | zero => exact Yields.pure hs
  | succ n ih =>
    rw [loop_succ]
    exact (hstep s hs).bind fun a ha => ih ha

/-- The loop's round number: what `J k` says after `k` rounds holds after all of them. -/
theorem loop_count {J : Nat → σ → Prop} {step : σ → Parser ε σ}
    (hstep : ∀ k s, J k s → Yields (step s) (J (k + 1))) (n k : Nat) {s : σ} (hs : J k s) :
    Yields (Parser.loop n step s) (J (k + n)) := by
  induction n generalizing s k with
  | zero => exact Yields.pure hs
  | succ n ih =>
    rw [loop_succ, show k + (n + 1) = (k + 1) + n by omega]
    exact (hstep k s hs).bind fun a ha => ih (k + 1) ha

end Yields

end Parser

end Wire
