import Mathlib.Algebra.BigOperators.Group.List.Basic
import Mathlib.Data.List.Forall2
import Mathlib.Data.List.Perm.Basic
import Mathlib.Data.List.Flatten
import Mathlib.Data.List.Induction
import Mathlib.Data.List.Nodup
import Mathlib.Logic.Function.Basic

namespace Omission.Lib
set_option autoImplicit true

/-- Agents that each have a list of actions, taken in any order that keeps every list's own. -/
inductive Interleaved : List (List α) → List α → Prop where
  | done {ls : List (List α)} (h : ∀ l ∈ ls, l = []) : Interleaved ls []
  | step {before : List (List α)} {rest : List α} {after : List (List α)} {l : List α} {a : α}
      (h : Interleaved (before ++ rest :: after) l) :
      Interleaved (before ++ (a :: rest) :: after) (a :: l)

/-- A block whose threads meet at a barrier after each of its phases. -/
inductive Phased : List (List (List α)) → List α → Prop where
  | nil : Phased [] []
  | cons (h : Interleaved ls l) (hs : Phased phases l') : Phased (ls :: phases) (l ++ l')

/-- All actions of a block, phase by phase and in each phase thread by thread. -/
def sequential (phases : List (List (List α))) : List α := phases.flatMap List.flatten

/-- Blocks that run side by side. -/
def Launched (blocks : List (List (List (List α)))) (l : List α) : Prop :=
  ∃ ls, List.Forall₂ Phased blocks ls ∧ Interleaved ls l

section Perform

variable {σ α : Type*} {act : α → σ → σ} {s : σ} {a : α} {l l' : List α} {ls : List (List α)}
  {phases : List (List (List α))} {blocks : List (List (List (List α)))}

def perform (act : α → σ → σ) (l : List α) (s : σ) : σ := l.foldl (fun s a => act a s) s

@[simp] theorem perform_nil (act : α → σ → σ) (s : σ) : perform act [] s = s := rfl

@[simp] theorem perform_cons (act : α → σ → σ) (a : α) (l : List α) (s : σ) :
    perform act (a :: l) s = perform act l (act a s) := rfl

theorem perform_append (act : α → σ → σ) (l l' : List α) (s : σ) :
    perform act (l ++ l') s = perform act l' (perform act l s) := List.foldl_append ..

/-- It does not matter which of the two lists is first to act. -/
def Independent (act : α → σ → σ) (l l' : List α) : Prop :=
  ∀ a ∈ l, ∀ b ∈ l', ∀ s, act a (act b s) = act b (act a s)

theorem perform_comm (h : ∀ b ∈ l, ∀ s, act b (act a s) = act a (act b s)) (s : σ) :
    perform act l (act a s) = act a (perform act l s) := by
  induction l generalizing s with
  | nil => rfl
  | cons b l ih =>
    rw [perform_cons, perform_cons, h b List.mem_cons_self]
    exact ih (fun b hb => h b (List.mem_cons_of_mem _ hb)) (act b s)

theorem Interleaved.perm (h : Interleaved ls l) : l.Perm ls.flatten := by
  induction h with
  | done h => rw [List.flatten_eq_nil_iff.2 h]
  | step h ih =>
    rw [List.flatten_append, List.flatten_cons] at ih ⊢
    exact (ih.cons _).trans List.perm_middle.symm

/-- Where the agents do not get in each other's way, any interleaving does what they do one after
the other. -/
theorem Interleaved.perform (h : Interleaved ls l) (hi : ls.Pairwise (Independent act)) (s : σ) :
    perform act l s = Lib.perform act ls.flatten s := by
  induction h generalizing s with
  | done h => rw [List.flatten_eq_nil_iff.2 h]
  | @step before rest after l a h ih =>
    rw [List.pairwise_append, List.pairwise_cons] at hi
    obtain ⟨hbefore, ⟨hrest, hafter⟩, hcross⟩ := hi
    have hcomm : ∀ b ∈ before.flatten, ∀ s, act b (act a s) = act a (act b s) := by
      intro b hb s
      obtain ⟨lb, hlb, hb⟩ := List.mem_flatten.1 hb
      exact hcross lb hlb _ List.mem_cons_self b hb a List.mem_cons_self s
    have htail : (before ++ rest :: after).Pairwise (Independent act) := by
      rw [List.pairwise_append, List.pairwise_cons]
      refine ⟨hbefore, ⟨?_, hafter⟩, ?_⟩
      · intro l' hl' x hx
        exact hrest l' hl' x (List.mem_cons_of_mem a hx)
      · intro lb hlb l' hl' x hx y hy
        rcases List.mem_cons.1 hl' with rfl | hl'
        · exact hcross lb hlb _ List.mem_cons_self x hx y (List.mem_cons_of_mem a hy)
        · exact hcross lb hlb l' (List.mem_cons_of_mem _ hl') x hx y hy
    have hseq := ih htail (act a s)
    rw [perform_cons, hseq]
    simp only [List.flatten_append, List.flatten_cons, perform_append, perform_cons,
      perform_comm hcomm]

theorem Phased.perm (h : Phased phases l) : l.Perm (sequential phases) := by
  induction h with
  | nil => exact .nil
  | cons h _ ih => exact h.perm.append ih

theorem Phased.perform (h : Phased phases l)
    (hi : ∀ ls ∈ phases, ls.Pairwise (Independent act)) (s : σ) :
    perform act l s = Lib.perform act (sequential phases) s := by
  induction h generalizing s with
  | nil => rfl
  | cons h hs ih =>
    have hrest := ih (fun ls hls => hi ls (List.mem_cons_of_mem _ hls))
    rw [perform_append, hrest, h.perform (hi _ List.mem_cons_self), sequential, sequential,
      List.flatMap_cons, perform_append]

/-- A launch of blocks that are independent of each other, and whose threads are between two
barriers, ends as if all were done in turn. -/
theorem Launched.perform (h : Launched blocks l)
    (hblocks : blocks.Pairwise fun p q => Independent act (sequential p) (sequential q))
    (hphases : ∀ phases ∈ blocks, ∀ ls ∈ phases, ls.Pairwise (Independent act)) (s : σ) :
    perform act l s = Lib.perform act (blocks.flatMap sequential) s := by
  obtain ⟨ls, hls, hl⟩ := h
  have hpair : ls.Pairwise (Independent act) := by
    clear hl
    induction hls with
    | nil => exact List.Pairwise.nil
    | @cons p lp ps ls hp hrest ih =>
      rw [List.pairwise_cons] at hblocks ⊢
      refine ⟨?_, ih hblocks.2 fun phases hm => hphases phases (List.mem_cons_of_mem _ hm)⟩
      intro l' hl' x hx y hy
      obtain ⟨q, hq, hql⟩ : ∃ q ∈ ps, Phased q l' := by
        obtain ⟨i, hi, rfl⟩ := List.mem_iff_getElem.1 hl'
        have hlen := hrest.length_eq
        exact ⟨ps[i], List.getElem_mem _, hrest.get (hlen ▸ hi) hi⟩
      exact hblocks.1 q hq x (hp.perm.mem_iff.1 hx) y (hql.perm.mem_iff.1 hy)
  rw [hl.perform hpair]
  clear hl hpair hblocks
  induction hls generalizing s with
  | nil => rfl
  | cons hp hrest ih =>
    rw [List.flatten_cons, List.flatMap_cons, perform_append, perform_append,
      hp.perform (hphases _ List.mem_cons_self),
      ih fun phases hm => hphases phases (List.mem_cons_of_mem _ hm)]

theorem Interleaved.cons_nil (h : Interleaved ls l) : Interleaved ([] :: ls) l := by
  induction h with
  | done h => exact .done (List.forall_mem_cons.2 ⟨rfl, h⟩)
  | @step before rest after l a h ih =>
    change Interleaved (([] :: before) ++ (a :: rest) :: after) (a :: l)
    exact .step ih

/-- Doing all in turn is one of the orders. -/
theorem interleaved_flatten (ls : List (List α)) : Interleaved ls ls.flatten := by
  induction ls with
  | nil => exact .done nofun
  | cons l ls ih =>
    induction l with
    | nil => exact ih.cons_nil
    | cons a l ihl =>
      change Interleaved ([] ++ (a :: l) :: ls) (a :: (l :: ls).flatten)
      exact .step ihl

theorem phased_sequential (phases : List (List (List α))) : Phased phases (sequential phases) := by
  induction phases with
  | nil => exact .nil
  | cons ls phases ih => exact .cons (interleaved_flatten ls) ih

theorem launched_sequential (blocks : List (List (List (List α)))) :
    Launched blocks (blocks.flatMap sequential) := by
  refine ⟨blocks.map sequential, ?_, interleaved_flatten _⟩
  induction blocks with
  | nil => exact .nil
  | cons phases blocks ih => exact .cons (phased_sequential phases) ih

end Perform

section Privately

variable {ι σ α M : Type*}

/-- The phases of block `i`, with the block's number on each action. -/
def numbered (i : ι) (phases : List (List (List α))) : List (List (List (ι × α))) :=
  phases.map fun ls => ls.map fun l => l.map (Prod.mk i)

theorem sequential_numbered (i : ι) (phases : List (List (List α))) :
    sequential (numbered i phases) = (sequential phases).map (Prod.mk i) := by
  simp only [sequential, numbered, List.flatMap_map, List.map_flatMap, List.map_flatten]

variable [DecidableEq ι] [AddCommMonoid M] {run : ι → α → σ → σ × M}

/-- An action of block `i` on the state of the block and on what the block puts out. -/
def alone (run : ι → α → σ → σ × M) (i : ι) (a : α) (p : σ × M) : σ × M :=
  ((run i a p.1).1, p.2 + (run i a p.1).2)

/-- The same among all blocks, each with a state of its own. -/
def privately (run : ι → α → σ → σ × M) (a : ι × α) (p : (ι → σ) × M) : (ι → σ) × M :=
  (Function.update p.1 a.1 (run a.1 a.2 (p.1 a.1)).1, p.2 + (run a.1 a.2 (p.1 a.1)).2)

theorem privately_comm {a b : ι × α} (h : a.1 ≠ b.1) (p : (ι → σ) × M) :
    privately run a (privately run b p) = privately run b (privately run a p) := by
  simp only [privately, Function.update_of_ne h, Function.update_of_ne h.symm]
  rw [Function.update_comm h, add_right_comm]

theorem privately_comm_of_alone {i : ι} {a b : α}
    (h : ∀ p, alone run i a (alone run i b p) = alone run i b (alone run i a p))
    (p : (ι → σ) × M) :
    privately run (i, a) (privately run (i, b) p) =
      privately run (i, b) (privately run (i, a) p) := by
  have hp := h (p.1 i, p.2)
  simp only [alone, Prod.mk.injEq] at hp
  simp only [privately, Function.update_self, Function.update_idem, hp.1, hp.2]

theorem perform_privately (l : List α) (i : ι) (p : (ι → σ) × M) :
    perform (privately run) (l.map (Prod.mk i)) p =
      (Function.update p.1 i (perform (alone run i) l (p.1 i, 0)).1,
        p.2 + (perform (alone run i) l (p.1 i, 0)).2) := by
  induction l using List.reverseRecOn with
  | nil => simp only [List.map_nil, perform_nil, Function.update_eq_self, add_zero]
  | append_singleton l a ih =>
    rw [List.map_append, perform_append, perform_append, ih]
    simp only [List.map_cons, List.map_nil, perform_cons, perform_nil, privately, alone,
      Function.update_self, Function.update_idem, add_assoc]

theorem perform_blocks {is : List ι} (his : is.Nodup) (ops : ι → List α) (p : (ι → σ) × M) :
    (perform (privately run) (is.flatMap fun i => (ops i).map (Prod.mk i)) p).2 =
      p.2 + (is.map fun i => (perform (alone run i) (ops i) (p.1 i, 0)).2).sum := by
  induction is generalizing p with
  | nil => simp only [List.flatMap_nil, perform_nil, List.map_nil, List.sum_nil, add_zero]
  | cons i is ih =>
    rw [List.nodup_cons] at his
    rw [List.flatMap_cons, perform_append, ih his.2, perform_privately, List.map_cons,
      List.sum_cons, add_assoc]
    congr 2
    apply congrArg
    apply List.map_congr_left
    intro j hj
    have hne : j ≠ i := fun h => his.1 (h ▸ hj)
    simp only [Function.update_of_ne hne]

/-- Blocks that share nothing but what they put out: together they put out what each puts out on
its own. -/
theorem Launched.outputs {is : List ι} (his : is.Nodup) {phases : ι → List (List (List α))}
    {l : List (ι × α)} (h : Launched (is.map fun i => numbered i (phases i)) l)
    (hphases : ∀ i, ∀ ls ∈ phases i, ls.Pairwise (Independent (alone run i)))
    (p : (ι → σ) × M) :
    (Lib.perform (privately run) l p).2 =
      p.2 + (is.map fun i =>
        (Lib.perform (alone run i) (sequential (phases i)) (p.1 i, 0)).2).sum := by
  have hcross : (is.map fun i => numbered i (phases i)).Pairwise fun q r =>
      Independent (privately run) (sequential q) (sequential r) := by
    rw [List.pairwise_map]
    refine his.pairwise_of_forall_ne ?_
    intro i _ j _ hne a ha b hb
    rw [sequential_numbered] at ha hb
    obtain ⟨a, -, rfl⟩ := List.mem_map.1 ha
    obtain ⟨b, -, rfl⟩ := List.mem_map.1 hb
    exact privately_comm hne
  have hwithin : ∀ q ∈ is.map (fun i => numbered i (phases i)), ∀ ls ∈ q,
      ls.Pairwise (Independent (privately run)) := by
    intro q hq ls hls
    obtain ⟨i, -, rfl⟩ := List.mem_map.1 hq
    obtain ⟨ls', hls', rfl⟩ := List.mem_map.1 hls
    rw [List.pairwise_map]
    refine (hphases i ls' hls').imp ?_
    intro l l' hl a ha b hb
    obtain ⟨a, ha', rfl⟩ := List.mem_map.1 ha
    obtain ⟨b, hb', rfl⟩ := List.mem_map.1 hb
    exact privately_comm_of_alone (hl a ha' b hb')
  rw [h.perform hcross hwithin, List.flatMap_map]
  simp only [sequential_numbered]
  exact perform_blocks his _ p

end Privately

end Omission.Lib
