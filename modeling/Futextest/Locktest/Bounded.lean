import Futextest.FutexMachine.Potential
import Futextest.Locktest.Run

/-!
# The harness takes few steps

Outside of the function under test a run of `locktest` has a bounded number of steps, in
the order of the number of threads, whatever that function does and however long it takes.
Each thread has a rank, how many statements of the harness it still has before it, and
gives one up with each. What a store or a wake brings to the threads that look at the word
is set aside beforehand in the rank of the thread that does it: a thread asleep at a barrier
has two statements more to do when it is woken, and one that is about to sleep has so when
the word changes under it.

## Main definitions

* `rank` — the statements of the harness that a thread has before it
* `watches` — whose way through the harness a word decides

## Main results

* `harness_bounded` — how many steps a run takes outside of the function under test
-/

open FutexMachine

namespace Locktest

variable {A F : Type} (c : Locktest A F)

/-- The thread is in the function under test. -/
def inBody : Team c.threads → LocktestLoc F c.n → Bool
  | .worker _, .worker (.body _) => true
  | _, _ => false

/-! ## Ranks -/

/-- How far a worker is from the end of `barrier_sync`, with the gate as it is. -/
@[simp] def syncRank (gate : UInt32) : SyncPc → ℕ
  -- main, if it looks at the counter, has to look at it again
  | .dec => 10
  | .check => 7
  | .wake => 6
  | .test => 2
  | .wait => if gate = 0 then 1 else 3
  | .read => 1

/-- How far main is from the end of `barrier_wait`, with the counter as it is. -/
@[simp] def waitRank (counter : UInt32) : WaitPc → ℕ
  | .read => 2
  | .sleep threads => if counter = threads.toUInt32 then 1 else 3

/-- How far a worker is from its end, but for the function under test. -/
@[simp] def workerRank (mem : LocktestAddr A → UInt32) : WorkerPc F → ℕ
  | .before pc => 13 + syncRank (mem (.before .unblock)) pc
  | .test _ => 13
  | .call => 12
  | .body _ => 11
  | .after pc => syncRank (mem (.after .unblock)) pc
  | .ret _ => 0

/-- How far main is from its end, with what its stores and wakes bring to `n` workers. -/
@[simp] def mainRank {n : ℕ} (mem : LocktestAddr A → UInt32) : MainPc n → ℕ
  | .create i => 10 * n + 12 - i
  | .abort _ .store => 5 * n + 3
  | .abort _ .wake => 3 * n + 2
  | .abortJoin i => i + 1
  | .waitBefore pc => 9 * n + 9 + waitRank (mem (.before .threads)) pc
  | .timesBefore => 9 * n + 9
  | .unblockBefore .store => 9 * n + 8
  | .unblockBefore .wake => 7 * n + 7
  | .waitAfter pc => 5 * n + 4 + waitRank (mem (.after .threads)) pc
  | .timesAfter => 5 * n + 4
  | .unblockAfter .store => 5 * n + 3
  | .unblockAfter .wake => 3 * n + 2
  | .join i => n - i + 1
  | .ret _ => 0

/-- How far a thread is from its end. -/
@[simp] def locRank (mem : LocktestAddr A → UInt32) : Team c.threads → LocktestLoc F c.n → ℕ
  | .main, .main pc => mainRank mem pc
  | .worker _, .worker pc => workerRank mem pc
  | _, _ => 0

/-- How far a thread is from its end as things are: one that sleeps at a barrier has
nothing to do until it is woken. -/
@[simp] def rank (mem : LocktestAddr A → UInt32) (t : Team c.threads) :
    Status (LocktestAddr A) (LocktestLoc F c.n) → ℕ
  | .asleep (.user _) l => c.locRank mem t l
  | .asleep _ l => c.locRank mem t l - 2
  | .ready l => c.locRank mem t l
  | .unborn l => c.locRank mem t l

/-- The counters are for main, the gates for the workers. -/
@[simp] def watches : LocktestAddr A → Team c.threads → Bool
  | .before .threads, .main => true
  | .after .threads, .main => true
  | .before .unblock, .worker _ => true
  | .after .unblock, .worker _ => true
  | _, _ => false

/-- The threads whose way the word decides. -/
def watchers (a : LocktestAddr A) : Finset (Team c.threads) :=
  Finset.univ.filter fun t => c.watches a t

/-- What a store or a wake may bring to others. -/
@[simp] def charge : Access (LocktestAddr A) (Team c.threads) → ℕ
  | .store a _ => 2 * (c.watchers a).card
  | .dec a _ => 2 * (c.watchers a).card
  | .cmpxchg a _ _ _ => 2 * (c.watchers a).card
  | .wake a _ _ => 2 * (c.watchers a).card
  | _ => 0

variable {c}

theorem card_team : Fintype.card (Team c.threads) = c.n + 1 := by
  have split : (Finset.univ : Finset (Team c.threads)) =
      insert .main (Finset.univ.image Thread.worker) := by
    ext t
    cases t <;> simp
  rw [← Finset.card_univ, split, Finset.card_insert_of_notMem (by simp),
    Finset.card_image_of_injective _ (by intro i j same; simpa using same), Finset.card_univ,
    Fintype.card_fin]

theorem mem_watchers {a : LocktestAddr A} {t : Team c.threads} :
    t ∈ c.watchers a ↔ c.watches a t = true := by
  rw [watchers, Finset.mem_filter, and_iff_right (Finset.mem_univ t)]

@[simp] theorem watchers_user (a : A) : (c.watchers (.user a)).card = 0 := by
  rw [Finset.card_eq_zero, Finset.eq_empty_iff_forall_notMem]
  intro t member
  cases t <;> simp [mem_watchers] at member

theorem watchers_threads {a : LocktestAddr A} (counter : a = .before .threads ∨ a = .after .threads) :
    (c.watchers a).card = 1 := by
  have main : c.watchers a = {.main} := by
    ext t
    rcases counter with rfl | rfl <;> cases t <;> simp [mem_watchers]
  rw [main, Finset.card_singleton]

theorem watchers_unblock {a : LocktestAddr A} (gate : a = .before .unblock ∨ a = .after .unblock) :
    (c.watchers a).card = c.n := by
  have workers : c.watchers a = Finset.univ.erase .main := by
    ext t
    rcases gate with rfl | rfl <;> cases t <;> simp [mem_watchers]
  rw [workers, Finset.card_erase_of_mem (Finset.mem_univ _), Finset.card_univ, card_team,
    Nat.add_sub_cancel]

@[simp] theorem watchers_before_threads : (c.watchers (.before .threads)).card = 1 :=
  watchers_threads (.inl rfl)

@[simp] theorem watchers_after_threads : (c.watchers (.after .threads)).card = 1 :=
  watchers_threads (.inr rfl)

@[simp] theorem watchers_before_unblock : (c.watchers (.before .unblock)).card = c.n :=
  watchers_unblock (.inl rfl)

@[simp] theorem watchers_after_unblock : (c.watchers (.after .unblock)).card = c.n :=
  watchers_unblock (.inr rfl)

/-! ## What a word does to the ranks -/

theorem syncRank_le (gate gate' : UInt32) (pc : SyncPc) :
    syncRank gate' pc ≤ syncRank gate pc + 2 := by
  cases pc with
  | wait =>
    simp only [syncRank]
    split_ifs <;> omega
  | dec | check | wake | test | read => exact Nat.le_add_right _ 2

theorem waitRank_le (counter counter' : UInt32) (pc : WaitPc) :
    waitRank counter' pc ≤ waitRank counter pc + 2 := by
  cases pc with
  | read => exact Nat.le_add_right _ 2
  | sleep threads =>
    simp only [waitRank]
    split_ifs <;> omega

/-- When one word changes, those who watch it may get two statements more. -/
theorem locRank_le {mem mem' : LocktestAddr A → UInt32} {a : LocktestAddr A}
    (others : ∀ b, b ≠ a → mem' b = mem b) (t : Team c.threads) (l : LocktestLoc F c.n) :
    c.locRank mem' t l ≤ c.locRank mem t l + if c.watches a t then 2 else 0 := by
  cases t with
  | main =>
    cases l with
    | worker pc => exact Nat.zero_le _
    | main pc =>
      cases pc with
      | waitBefore pc =>
        by_cases same : a = .before .threads
        · have grown := waitRank_le (mem (.before .threads)) (mem' (.before .threads)) pc
          simp only [locRank, mainRank, same, watches, if_true]
          omega
        · simp [others _ (Ne.symm same)]
      | waitAfter pc =>
        by_cases same : a = .after .threads
        · have grown := waitRank_le (mem (.after .threads)) (mem' (.after .threads)) pc
          simp only [locRank, mainRank, same, watches, if_true]
          omega
        · simp [others _ (Ne.symm same)]
      | abort i pc | unblockBefore pc | unblockAfter pc => cases pc <;> simp
      | create i | abortJoin i | timesBefore | timesAfter | join i | ret result => simp
  | worker i =>
    cases l with
    | main pc => exact Nat.zero_le _
    | worker pc =>
      cases pc with
      | before pc =>
        by_cases same : a = .before .unblock
        · have grown := syncRank_le (mem (.before .unblock)) (mem' (.before .unblock)) pc
          simp only [locRank, workerRank, same, watches, if_true]
          omega
        · simp [others _ (Ne.symm same)]
      | after pc =>
        by_cases same : a = .after .unblock
        · have grown := syncRank_le (mem (.after .unblock)) (mem' (.after .unblock)) pc
          simp only [locRank, workerRank, same, watches, if_true]
          omega
        · simp [others _ (Ne.symm same)]
      | test result | call | body pc | ret ran => simp

theorem rank_le {mem mem' : LocktestAddr A → UInt32} {a : LocktestAddr A}
    (others : ∀ b, b ≠ a → mem' b = mem b) (t : Team c.threads)
    (x : Status (LocktestAddr A) (LocktestLoc F c.n)) :
    c.rank mem' t x ≤ c.rank mem t x + if c.watches a t then 2 else 0 := by
  have grown := fun l => locRank_le others (c := c) t l
  cases x with
  | unborn l | ready l => exact grown l
  | asleep b l =>
    have grown := grown l
    cases b with
    | user b => exact grown
    | before b | after b =>
      simp only [rank]
      omega

/-! ## What a step does -/

/-- A statement of a worker pays for itself, but for those of the function under test, and
for what it brings to others. -/
theorem thread_pays (mem : LocktestAddr A → UInt32) (woken : Finset (Team c.threads))
    (t : Fin c.n) {pc : WorkerPc F} {i : Instr (LocktestAddr A) (LocktestLoc F c.n)}
    (op : c.thread pc = .instr i) [DecidableEq A] :
    c.rank (i.effect mem).1 (.worker t) (i.status mem) + c.charge (i.shows mem woken) +
        (if c.inBody (.worker t) (.worker pc) then 0 else 1) ≤
      c.locRank mem (.worker t) (.worker pc) := by
  cases pc with
  | before pc =>
    obtain rfl := (Op.instr.inj op).symm
    cases pc with
    | check => by_cases last : mem (.before .threads) = 0 <;> simp [last, inBody]
    | test | wait => by_cases shut : mem (.before .unblock) = 0 <;> simp [shut, inBody]
    | dec | wake | read => simp [inBody]
  | test result =>
    obtain rfl := (Op.instr.inj op).symm
    by_cases positive : 0 < result <;> simp [positive, inBody]
  | call =>
    obtain rfl := (Op.instr.inj op).symm
    simp [inBody]
  | body pc =>
    obtain rfl := (Op.instr.inj op).symm
    -- whatever the function does, the worker stays in it or comes out of it
    have next : ∀ (mem' : LocktestAddr A → UInt32) (k : F ⊕ Unit), c.locRank mem' (.worker t)
        (Sum.elim (fun pc => .worker (.body pc)) (fun _ => .worker (.after .dec)) k) ≤ 11 := by
      intro mem' k
      rcases k with pc' | _
      · exact le_rfl
      · exact Nat.le_succ 10
    change _ ≤ 11
    cases c.locktestFunction pc with
    | wait a v k =>
      by_cases sleeps : mem (.user a) = v
      · simpa only [Instr.map, Instr.status, sleeps, if_true, Instr.effect, Instr.shows, rank,
          charge, inBody, add_zero] using next mem k
      · simpa only [Instr.map, Instr.status, sleeps, if_false, Instr.effect, Instr.shows, rank,
          charge, inBody, if_true, add_zero] using next mem k
    | tau k | load a k | store a v k | cmpxchg a old new k | dec a k | wake a n k =>
      simpa only [Instr.map, Instr.status, Instr.effect, Instr.shows, Function.comp_apply, rank,
        charge, watchers_user, inBody, if_true, mul_zero, add_zero] using next _ _
  | after pc =>
    obtain rfl := (Op.instr.inj op).symm
    cases pc with
    | check => by_cases last : mem (.after .threads) = 0 <;> simp [last, inBody]
    | test | wait => by_cases shut : mem (.after .unblock) = 0 <;> simp [shut, inBody]
    | dec | wake | read => simp [inBody]
  | ret ran => cases op

/-- The same for main. -/
theorem main_pays (mem : LocktestAddr A → UInt32) (woken : Finset (Team c.threads))
    {pc : MainPc c.n} {i : Instr (LocktestAddr A) (LocktestLoc F c.n)}
    (op : c.main pc = .instr i) [DecidableEq A] :
    c.rank (i.effect mem).1 .main (i.status mem) + c.charge (i.shows mem woken) + 1 ≤
      c.locRank mem .main (.main pc) := by
  cases pc with
  | create i =>
    have last := i.isLt
    simp only [main] at op
    split at op
    · split at op
      · cases op
      · obtain rfl := (Op.instr.inj op).symm
        simp
        omega
    · obtain rfl := (Op.instr.inj op).symm
      simp
      omega
  | abort i pc =>
    obtain rfl := (Op.instr.inj op).symm
    have last := i.isLt
    cases pc with
    | store | wake =>
      simp
      omega
  | abortJoin i =>
    rcases abortJoin_cases (c := c) i with ⟨-, op'⟩ | ⟨j, less, -, op'⟩
    · obtain rfl := by simpa [op'] using op
      simp
    · simp [op'] at op
  | waitBefore pc =>
    obtain rfl := (Op.instr.inj op).symm
    cases pc with
    | read => by_cases more : 0 < (mem (.before .threads)).toInt32 <;> simp [more]
    | sleep v => by_cases same : mem (.before .threads) = v.toUInt32 <;> simp [same]
  | waitAfter pc =>
    obtain rfl := (Op.instr.inj op).symm
    cases pc with
    | read => by_cases more : 0 < (mem (.after .threads)).toInt32 <;> simp [more]
    | sleep v => by_cases same : mem (.after .threads) = v.toUInt32 <;> simp [same]
  | timesBefore | timesAfter =>
    obtain rfl := (Op.instr.inj op).symm
    simp
  | unblockBefore pc | unblockAfter pc =>
    obtain rfl := (Op.instr.inj op).symm
    cases pc with
    | store | wake =>
      simp
      omega
  | join i =>
    rcases join_cases (c := c) i with ⟨more, op'⟩ | ⟨-, op'⟩
    · simp [op'] at op
    · obtain rfl := by simpa [op'] using op
      simp
  | ret result => cases op

/-- A creation or a join is one of main, and pays for itself. -/
theorem creates_or_joins_pays (mem : LocktestAddr A → UInt32) {t u : Team c.threads}
    {l k : LocktestLoc F c.n} (op : c.program t l = .create u k ∨ c.program t l = .join u k) :
    c.inBody t l = false ∧ c.locRank mem t k + 1 ≤ c.locRank mem t l := by
  rcases t with _ | t <;> rcases l with pc | pc
  · refine ⟨rfl, ?_⟩
    simp only [program] at op
    cases pc with
    | create i =>
      have last := i.isLt
      simp only [main] at op
      split at op
      · split at op
        · obtain ⟨-, rfl⟩ := Op.create.inj (op.resolve_right (by simp))
          simp only [locRank, mainRank]
          omega
        · simp at op
      · simp at op
    | abortJoin i =>
      rcases abortJoin_cases (c := c) i with ⟨-, op'⟩ | ⟨j, less, pred, op'⟩
      · simp [op'] at op
      · rw [op'] at op
        obtain ⟨-, rfl⟩ := Op.join.inj (op.resolve_left (by simp))
        simp only [locRank, mainRank]
        omega
    | join i =>
      rcases join_cases (c := c) i with ⟨more, op'⟩ | ⟨-, op'⟩
      · rw [op'] at op
        obtain ⟨-, rfl⟩ := Op.join.inj (op.resolve_left (by simp))
        simp only [locRank, mainRank]
        omega
      · simp [op'] at op
    | abort i pc | waitBefore pc | timesBefore | unblockBefore pc | waitAfter pc | timesAfter
    | unblockAfter pc | ret result => simp [main] at op
  · simp [program] at op
  · simp [program] at op
  · cases pc <;> simp [program, thread] at op

section Machine

variable [DecidableEq A] {s s' : c.RunState} {e : c.RunEvent}

/-- Only the threads that watch a word of a barrier sleep on it. -/
theorem sleepers_subset (reach : c.machine.Reachable s) {a : LocktestAddr A}
    (barrier : ∀ b, a ≠ .user b) : s.sleepers a ⊆ c.watchers a := by
  intro t sleeper
  obtain ⟨l, asleep⟩ := (State.mem_sleepers s).mp sleeper
  rw [mem_watchers]
  rcases locktest_asleep reach asleep with ⟨rfl, ⟨rfl, -⟩ | ⟨rfl, -⟩⟩ |
    ⟨i, rfl, ⟨rfl, -⟩ | ⟨rfl, -⟩ | ⟨b, rfl, -⟩⟩
  · rfl
  · rfl
  · rfl
  · rfl
  · exact absurd rfl (barrier b)

/-- A step takes its own thread from one rank to another, and what it brings to the others
is covered by its charge. -/
theorem total_rank_le (reach : c.machine.Reachable s) (step : Step c.program s e s') :
    s'.total (c.rank s'.mem) + c.rank s.mem e.thread (s.thread e.thread) ≤
      s.total (c.rank s.mem) + c.rank s'.mem e.thread (s'.thread e.thread) +
        c.charge e.access := by
  have starts : ∀ u l, e.access = .create u → c.rank s'.mem u (.ready l) ≤
      c.rank s'.mem u (.unborn l) := fun _ _ _ => le_rfl
  by_cases writes : ∃ a, e.access.writes = some a
  · -- a word changes, and nobody is woken
    obtain ⟨a, writes⟩ := writes
    have others : ∀ b, b ≠ a → s'.mem b = s.mem b := by
      intro b ne
      refine Step.mem_other step ?_
      rw [writes]
      simpa using Ne.symm ne
    have sum := Step.total_le step (c.rank s.mem) (c.rank s'.mem) 0
      (fun u => if c.watches a u then 2 else 0) (fun u _ => rank_le others u _)
      (by cases haccess : e.access <;> simp [haccess, Access.writes, Access.woken] at writes ⊢)
      starts
    have price : c.charge e.access = ∑ u, if c.watches a u then 2 else 0 := by
      rw [← Finset.sum_filter, Finset.sum_const, smul_eq_mul, mul_comm]
      cases haccess : e.access <;> simp [haccess, Access.writes] at writes <;>
        rw [charge, writes, watchers]
    omega
  · -- the words stay, and those that a wake rouses have two statements more
    have same : s'.mem = s.mem := by
      funext b
      exact Step.mem_other step fun written => writes ⟨b, written⟩
    rw [same] at starts ⊢
    by_cases wakes : ∃ a n woken, e.access = .wake a n woken
    · obtain ⟨a, n, woken, wakes⟩ := wakes
      obtain ⟨-, subset⟩ := Step.woken_le step wakes
      have roused : e.access.woken = woken := by rw [wakes]; rfl
      have price : c.charge e.access = 2 * (c.watchers a).card := by rw [wakes, charge]
      by_cases user : ∃ b, a = .user b
      · obtain ⟨b, rfl⟩ := user
        have sum := Step.total_le step (c.rank s.mem) (c.rank s.mem) 0 (fun _ => 0)
          (fun _ _ => le_rfl) ?_ starts
        · simp only [Finset.sum_const_zero] at sum
          omega
        · intro u member a' l asleep
          obtain ⟨l', asleep'⟩ := (State.mem_sleepers s).mp (subset (roused ▸ member))
          obtain ⟨rfl, rfl⟩ := Status.asleep.inj (asleep.symm.trans asleep')
          exact le_rfl
      · push Not at user
        have few := Finset.card_le_card (subset.trans (sleepers_subset reach user))
        have sum := Step.total_le step (c.rank s.mem) (c.rank s.mem) 2 (fun _ => 0)
          (fun _ _ => le_rfl) ?_ starts
        · rw [roused] at sum
          simp only [Finset.sum_const_zero] at sum
          omega
        · intro u _ a' l _
          cases a' with
          | user b => exact Nat.le_add_right _ 2
          | before b | after b =>
            simp only [rank]
            omega
    · have nobody : e.access.woken = ∅ := by
        cases haccess : e.access with
        | wake a n woken => exact absurd ⟨a, n, woken, haccess⟩ wakes
        | _ => rfl
      have sum := Step.total_le step (c.rank s.mem) (c.rank s.mem) 0 (fun _ => 0)
        (fun _ _ => le_rfl) (by simp [nobody]) starts
      simp only [Finset.sum_const_zero] at sum
      omega

/-- The step is a statement of the harness: not one of the function under test, and not the
return of a wait that nobody woke. -/
def ofHarness (e : c.RunEvent) : Bool := !c.inBody e.thread e.pc && !e.resumes

/-- A thread that moves pays for its step and for the charge that comes with it. -/
theorem self_pays (step : Step c.program s e s') :
    c.rank s'.mem e.thread (s'.thread e.thread) + c.charge e.access +
        (if ofHarness e then 1 else 0) ≤
      c.rank s.mem e.thread (s.thread e.thread) + if e.resumes then 2 else 0 := by
  rcases step.view with ⟨i, woken, hop, ready, performed⟩ | ⟨u, l, k, hop, ready, -, shown, rfl⟩ |
    ⟨u, k, hop, ready, -, shown, rfl⟩ | ⟨a, asleep, shown, rfl⟩
  · have awake : e.resumes = false := Step.resumes_eq_false step ready
    have outside : ofHarness e = !c.inBody e.thread e.pc := by simp [ofHarness, awake]
    obtain ⟨mem, -⟩ := Instr.effect_of_perform performed
    rw [Instr.status_of_perform performed, Instr.shows_of_perform performed, mem, ready, outside,
      awake]
    rcases ht : e.thread with _ | t <;> rcases hpc : e.pc with pc | pc <;>
      rw [ht, hpc] at hop <;> try cases hop
    · simpa [inBody] using main_pays s.mem woken hop
    · have paid := thread_pays s.mem woken t hop
      cases hbody : c.inBody (.worker t) (.worker pc) <;> simpa [hbody] using paid
  · have awake : e.resumes = false := by simp [Event.resumes, shown]
    have paid := creates_or_joins_pays s.mem (t := e.thread) (.inl hop)
    rw [ready, State.goto_self, State.goto_mem, State.goto_mem, shown, awake]
    simpa [ofHarness, paid.1, awake] using paid.2
  · have awake : e.resumes = false := by simp [Event.resumes, shown]
    have paid := creates_or_joins_pays s.mem (t := e.thread) (.inr hop)
    rw [ready, State.goto_self, State.goto_mem, shown, awake]
    simpa [ofHarness, paid.1, awake] using paid.2
  · -- a return from a wait gives back what the sleep took
    have resumed : e.resumes = true := Event.resumes_iff.mpr shown
    rw [asleep, State.goto_self, State.goto_mem, shown]
    cases a with
    | user b => simp [ofHarness, resumed]
    | before b | after b =>
      simp only [ofHarness, resumed, Bool.not_true, Bool.and_false, rank, charge]
      simp
      omega

/-- The harness is paid for by the ranks. -/
theorem harness_potential (c : Locktest A F) :
    System.Potential c.machine (fun s => s.total (c.rank s.mem))
      (fun e => if ofHarness e then 1 else 0) fun e => if e.resumes then 2 else 0 := by
  refine ⟨fun s e s' reach step => ?_⟩
  have others := total_rank_le reach step
  have self := self_pays step
  omega

/-- **The harness takes few steps.** Outside of the function under test the threads of a run
take at most 33 steps a worker and 12 more, whoever moves next, and two for every wait that
returns without a wake. -/
theorem harness_bounded (c : Locktest A F) {w : List c.RunEvent} {s : c.RunState}
    (run : c.machine.Run w s) :
    w.countP ofHarness ≤ 33 * c.n + 12 + 2 * w.countP Event.resumes := by
  have initial : ∀ s, c.machine.init s → s.total (c.rank s.mem) ≤ 33 * c.n + 12 := by
    intro s first
    rw [machine_init.mp first]
    have total : c.start.total (c.rank c.start.mem) =
        ∑ t : Team c.threads, if t = .main then 10 * c.n + 12 else 23 := by
      refine Finset.sum_congr rfl fun t _ => ?_
      cases t <;> simp [start]
    rw [total, ← Finset.add_sum_erase _ _ (Finset.mem_univ Thread.main), if_pos rfl,
      Finset.sum_congr rfl fun t member => if_neg (Finset.ne_of_mem_erase member),
      Finset.sum_const, Finset.card_erase_of_mem (Finset.mem_univ _), Finset.card_univ, card_team,
      smul_eq_mul]
    omega
  have counted := (harness_potential c).count_le initial run
  omega

end Machine

end Locktest
