import Adios.Runs.Descent
import Mathlib.Logic.Function.Basic

/-!
# Runs — processes that send each other messages

Each process follows a program of its own: what it does next depends on its state alone. Messages
from one process to another stay in order; any process may take the next turn. Turns of different
processes commute, so that one run that comes to its end tells the end of every run.
-/

namespace Runs

inductive Action (ι σ μ : Type) where
  | stop
  | step (s : σ)
  | send (dst : ι) (m : μ) (s : σ)
  /-- Goes on when all messages to `dst` have been received. -/
  | drain (dst : ι) (s : σ)
  | recv (src : ι) (next : μ → σ)

structure Network (ι σ μ : Type) where
  procs : ι → σ
  queue : ι × ι → List μ

namespace Network

variable {ι σ μ : Type} [DecidableEq ι]

def become (c : Network ι σ μ) (p : ι) (s : σ) : Network ι σ μ :=
  { c with procs := Function.update c.procs p s }

def put (c : Network ι σ μ) (k : ι × ι) (ms : List μ) : Network ι σ μ :=
  { c with queue := Function.update c.queue k ms }

/-- A turn of the process `p`, which does what its program says. -/
inductive Turn (next : ι → σ → Action ι σ μ) (p : ι) : Network ι σ μ → Network ι σ μ → Prop where
  | step {c : Network ι σ μ} {s : σ} (h : next p (c.procs p) = .step s) :
      Turn next p c (c.become p s)
  | send {c : Network ι σ μ} {q : ι} {m : μ} {s : σ} (h : next p (c.procs p) = .send q m s) :
      Turn next p c ((c.put (p, q) (c.queue (p, q) ++ [m])).become p s)
  | drain {c : Network ι σ μ} {q : ι} {s : σ} (h : next p (c.procs p) = .drain q s)
      (hempty : c.queue (p, q) = []) : Turn next p c (c.become p s)
  | recv {c : Network ι σ μ} {q : ι} {f : μ → σ} {m : μ} {ms : List μ}
      (h : next p (c.procs p) = .recv q f) (hqueue : c.queue (q, p) = m :: ms) :
      Turn next p c ((c.put (q, p) ms).become p (f m))

def Moves (next : ι → σ → Action ι σ μ) (c d : Network ι σ μ) : Prop := ∃ p, Turn next p c d

variable {next : ι → σ → Action ι σ μ} {c d e : Network ι σ μ} {p q : ι} {s t : σ}
  {k l : ι × ι} {ms ns : List μ}

@[simp] theorem become_procs_self : (c.become p s).procs p = s := by
  show Function.update c.procs p s p = s
  rw [Function.update_self]

@[simp] theorem become_procs_of_ne (h : q ≠ p) : (c.become p s).procs q = c.procs q := by
  show Function.update c.procs p s q = c.procs q
  rw [Function.update_of_ne h]

@[simp] theorem become_queue : (c.become p s).queue = c.queue := rfl

@[simp] theorem put_procs : (c.put k ms).procs = c.procs := rfl

@[simp] theorem put_queue_self : (c.put k ms).queue k = ms := by
  show Function.update c.queue k ms k = ms
  rw [Function.update_self]

@[simp] theorem put_queue_of_ne (h : l ≠ k) : (c.put k ms).queue l = c.queue l := by
  show Function.update c.queue k ms l = c.queue l
  rw [Function.update_of_ne h]

theorem put_become : (c.become p s).put k ms = (c.put k ms).become p s := rfl

theorem become_comm (h : p ≠ q) : (c.become p s).become q t = (c.become q t).become p s := by
  unfold become
  rw [Function.update_comm h]

theorem put_comm (h : k ≠ l) : (c.put k ms).put l ns = (c.put l ns).put k ms := by
  unfold put
  rw [Function.update_comm h]

@[simp] theorem put_put : (c.put k ms).put k ns = c.put k ns := by
  unfold put
  rw [Function.update_idem]

@[simp] theorem become_become : (c.become p s).become p t = c.become p t := by
  unfold become
  rw [Function.update_idem]

theorem become_eq_self (h : c.procs p = s) : c.become p s = c := by
  unfold become
  rw [← h, Function.update_eq_self]

theorem put_eq_self (h : c.queue k = ms) : c.put k ms = c := by
  unfold put
  rw [← h, Function.update_eq_self]

/-! ## The turns commute -/

theorem Turn.unique (h : Turn next p c d) (h' : Turn next p c e) : d = e := by
  cases h with
  | step hd => cases h' <;> simp_all
  | send hd => cases h' <;> simp_all
  | drain hd => cases h' <;> simp_all
  | recv hd hqueue => cases h' <;> simp_all

def Meet (next : ι → σ → Action ι σ μ) (p q : ι) (d e : Network ι σ μ) : Prop :=
  ∃ w, Turn next q d w ∧ Turn next p e w

theorem Meet.symm (h : Meet next p q d e) : Meet next q p e d := by
  obtain ⟨w, hd, he⟩ := h
  exact ⟨w, he, hd⟩

theorem Turn.procs_of_ne (h : Turn next p c d) (hq : q ≠ p) : d.procs q = c.procs q := by
  cases h <;> exact become_procs_of_ne hq

theorem Turn.become_of_ne (hpq : p ≠ q) (hq : Turn next q c e) :
    Turn next q (c.become p s) (e.become p s) := by
  have hprocs : (c.become p s).procs q = c.procs q := become_procs_of_ne hpq.symm
  cases hq with
  | step h =>
    rw [become_comm hpq.symm]
    exact .step (by rw [hprocs, h])
  | send h =>
    rw [become_comm hpq.symm]
    exact .send (c := c.become p s) (by rw [hprocs, h])
  | drain h hempty =>
    rw [become_comm hpq.symm]
    exact .drain (by rw [hprocs, h]) hempty
  | recv h hqueue =>
    rw [become_comm hpq.symm]
    exact .recv (c := c.become p s) (by rw [hprocs, h]) hqueue

theorem Turn.meet_step (hpq : p ≠ q) (hp : next p (c.procs p) = .step s) (hq : Turn next q c e) :
    Meet next p q (c.become p s) e := by
  have hp' : next p (e.procs p) = .step s := by rw [hq.procs_of_ne hpq, hp]
  exact ⟨e.become p s, hq.become_of_ne hpq, .step hp'⟩

theorem Turn.meet_drain {x : ι} (hpq : p ≠ q) (hp : next p (c.procs p) = .drain x s)
    (hempty : c.queue (p, x) = []) (hq : Turn next q c e) : Meet next p q (c.become p s) e := by
  have hp' : next p (e.procs p) = .drain x s := by rw [hq.procs_of_ne hpq, hp]
  have hempty' : e.queue (p, x) = [] := by
    -- only `p` itself can put a message into the queue
    cases hq with
    | step h => exact hempty
    | @send y m _ h =>
      have hne : (p, x) ≠ (q, y) := fun heq => hpq (congrArg Prod.fst heq)
      rw [become_queue, put_queue_of_ne hne, hempty]
    | drain h hempty' => exact hempty
    | @recv y _ m ms h hqueue =>
      have hne : (p, x) ≠ (y, q) := fun heq => by
        rw [heq, hqueue] at hempty
        cases hempty
      rw [become_queue, put_queue_of_ne hne, hempty]
  exact ⟨e.become p s, hq.become_of_ne hpq, .drain hp' hempty'⟩

section

variable (hpq : p ≠ q) {x y : ι} {m m' : μ}

include hpq

theorem Turn.meet_send_send
    (hp : next p (c.procs p) = .send x m s) (hq : next q (c.procs q) = .send y m' t) :
    Meet next p q ((c.put (p, x) (c.queue (p, x) ++ [m])).become p s)
      ((c.put (q, y) (c.queue (q, y) ++ [m'])).become q t) := by
  have hne : (p, x) ≠ (q, y) := fun heq => hpq (congrArg Prod.fst heq)
  have hpturn := @Turn.send ι σ μ _ next p
    ((c.put (q, y) (c.queue (q, y) ++ [m'])).become q t) x m s
    (by rw [become_procs_of_ne hpq, put_procs, hp])
  have hqturn := @Turn.send ι σ μ _ next q
    ((c.put (p, x) (c.queue (p, x) ++ [m])).become p s) y m' t
    (by rw [become_procs_of_ne hpq.symm, put_procs, hq])
  refine ⟨_, hqturn, ?_⟩
  rw [become_queue, put_queue_of_ne hne] at hpturn
  rw [become_queue, put_queue_of_ne hne.symm, put_become, put_comm hne, become_comm hpq]
  exact hpturn

theorem Turn.meet_send_recv {f : μ → σ}
    (hp : next p (c.procs p) = .send x m s) (hq : next q (c.procs q) = .recv y f)
    (hqueue : c.queue (y, q) = m' :: ms) :
    Meet next p q ((c.put (p, x) (c.queue (p, x) ++ [m])).become p s)
      ((c.put (y, q) ms).become q (f m')) := by
  have hsend := @Turn.send ι σ μ _ next p ((c.put (y, q) ms).become q (f m')) x m s
    (by rw [become_procs_of_ne hpq, put_procs, hp])
  have hnext : next q (((c.put (p, x) (c.queue (p, x) ++ [m])).become p s).procs q) =
    .recv y f := by
    rw [become_procs_of_ne hpq.symm, put_procs, hq]
  by_cases hkey : (p, x) = (y, q)
  · -- the message goes to the end of the queue that the other one takes its first message from
    have hrecv := @Turn.recv ι σ μ _ next q ((c.put (p, x) (c.queue (p, x) ++ [m])).become p s)
      y f m' (ms ++ [m]) hnext
      (by rw [become_queue, ← hkey, put_queue_self, hkey, hqueue, List.cons_append])
    refine ⟨_, hrecv, ?_⟩
    rw [become_queue, hkey, put_queue_self, put_become, put_put, become_comm hpq.symm] at hsend
    rw [put_become, hkey, put_put]
    exact hsend
  · have hrecv := @Turn.recv ι σ μ _ next q ((c.put (p, x) (c.queue (p, x) ++ [m])).become p s)
      y f m' ms hnext
      (by rw [become_queue, put_queue_of_ne (Ne.symm hkey), hqueue])
    refine ⟨_, hrecv, ?_⟩
    rw [become_queue, put_queue_of_ne hkey, put_become, become_comm hpq.symm,
      put_comm (Ne.symm hkey)] at hsend
    exact hsend

theorem Turn.meet_recv_recv {f g : μ → σ}
    (hp : next p (c.procs p) = .recv x f) (hpqueue : c.queue (x, p) = m :: ms)
    (hq : next q (c.procs q) = .recv y g) (hqqueue : c.queue (y, q) = m' :: ns) :
    Meet next p q ((c.put (x, p) ms).become p (f m)) ((c.put (y, q) ns).become q (g m')) := by
  have hne : (x, p) ≠ (y, q) := fun heq => hpq (congrArg Prod.snd heq)
  have hpturn := @Turn.recv ι σ μ _ next p ((c.put (y, q) ns).become q (g m')) x f m ms
    (by rw [become_procs_of_ne hpq, put_procs, hp])
    (by rw [become_queue, put_queue_of_ne hne, hpqueue])
  have hqturn := @Turn.recv ι σ μ _ next q ((c.put (x, p) ms).become p (f m)) y g m' ns
    (by rw [become_procs_of_ne hpq.symm, put_procs, hq])
    (by rw [become_queue, put_queue_of_ne hne.symm, hqqueue])
  refine ⟨_, hqturn, ?_⟩
  rw [put_become, put_comm hne, become_comm hpq]
  exact hpturn

end

theorem Turn.meet (hpq : p ≠ q) (hp : Turn next p c d) (hq : Turn next q c e) :
    Meet next p q d e := by
  cases hp with
  | step h => exact Turn.meet_step hpq h hq
  | drain h hempty => exact Turn.meet_drain hpq h hempty hq
  | send h =>
    cases hq with
    | step h' => exact (Turn.meet_step hpq.symm h' (.send h)).symm
    | drain h' hempty => exact (Turn.meet_drain hpq.symm h' hempty (.send h)).symm
    | send h' => exact Turn.meet_send_send hpq h h'
    | recv h' hqueue => exact Turn.meet_send_recv hpq h h' hqueue
  | recv h hqueue =>
    cases hq with
    | step h' => exact (Turn.meet_step hpq.symm h' (.recv h hqueue)).symm
    | drain h' hempty => exact (Turn.meet_drain hpq.symm h' hempty (.recv h hqueue)).symm
    | send h' => exact (Turn.meet_send_recv hpq.symm h' h hqueue).symm
    | recv h' hqueue' => exact Turn.meet_recv_recv hpq h hqueue h' hqueue'

theorem moves_commutes (next : ι → σ → Action ι σ μ) : Commutes (Moves next) := by
  rintro c d e ⟨p, hd⟩ ⟨q, he⟩
  by_cases hpq : p = q
  · subst hpq
    exact Or.inl (hd.unique he)
  · obtain ⟨w, hw, hw'⟩ := Turn.meet hpq hd he
    exact Or.inr ⟨w, ⟨q, hw⟩, ⟨p, hw'⟩⟩

/-! ## Runs of one process -/

inductive Alone (next : ι → σ → Action ι σ μ) (p : ι) : σ → σ → Prop where
  | refl (s : σ) : Alone next p s s
  | head {s t u : σ} (h : next p s = .step t) (hrest : Alone next p t u) : Alone next p s u

omit [DecidableEq ι] in
theorem Alone.single (h : next p s = .step t) : Alone next p s t := .head h (.refl t)

theorem Alone.reaches (h : Alone next p s t) (hc : c.procs p = s) :
    Reaches (Moves next) c (c.become p t) := by
  induction h generalizing c with
  | refl s =>
    rw [become_eq_self hc]
    exact .refl _ c
  | @head s t u hstep _ ih =>
    have hturn : Turn next p c (c.become p t) := .step (by rw [hc, hstep])
    have hrest := @ih (c.become p t) become_procs_self
    rw [become_become] at hrest
    exact hrest.head ⟨p, hturn⟩

theorem procs_of_stop (hstop : next p (c.procs p) = .stop) (h : Reaches (Moves next) c d) :
    d.procs p = c.procs p := by
  obtain ⟨n, h⟩ := h
  induction h with
  | refl c => rfl
  | @step n c d e hstep _ ih =>
    obtain ⟨q, hturn⟩ := hstep
    by_cases hq : p = q
    · subst hq
      cases hturn <;> simp_all
    · have hprocs := hturn.procs_of_ne hq
      rw [ih (by rw [hprocs, hstop]), hprocs]

theorem ended_of_stop (h : ∀ p, next p (c.procs p) = .stop) : Ended (Moves next) c := by
  rintro d ⟨p, hp⟩
  have hstop := h p
  cases hp <;> simp_all

end Network

end Runs
