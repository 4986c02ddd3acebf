/-
  `rts-core/src/watchdog.rs` and `now_ns` of `rts-core/src/time.rs`: the no-data watchdog, and the
  loops of the two pipelines that check it.

  `dispatch` touches the heartbeat for every payload that parses, whether it is queued or shed.  A
  checker sleeps, looks at the flag, and warns if the heartbeat is stale.  Neither side is atomic:
  `touch` reads the clock first and stores what it read after that, and `is_stale` reads the clock
  first and the heartbeat after that.  So the checker may look while a payload has been parsed and
  its heartbeat is still to be stored, and payloads may arrive while a check is made.  What a
  verdict can be held to is what had been stored when it loaded the heartbeat.

  The pipeline the watchdog belongs to is a parameter here, with what the watchdog sees of it:
  `Host`.  Both pipelines are instances, and what is proved here is proved once for both.

  A heartbeat is one number, and a check loads one.  That this says something about all payloads
  before is a matter of order: the ingest is one thread, it reads the clock and stores what it read
  before it goes on to the next payload, so the stored times never go back and the last one is the
  latest.  The checker reads its clock before it loads the heartbeat, so a heartbeat that is stored
  in between can only make the silence look shorter.  A warning is therefore never wrong about what
  was stored, and a check that does not warn has seen something recent.

  1. `WatchdogState` and `Host` — the code, and the pipeline around it.
  2. `Watched.act` — one step of the pipeline or of its checker, at a time.
  3. `Sound` — what every run keeps: a verdict says what the heartbeats stored before it say.
  4. `Timely` — when the checker is scheduled promptly, its last verdict is never too old.
  5. `leaves` — the checker's way out once the flag is set.
-/
import Mathlib.Data.UInt
import RtsPipeline.Lib.Timed

namespace RtsPipeline

open Lib

/-! ## The code

`now_ns` and `is_stale`; `touch` comes below, as two steps.  The subtraction saturates, so a
heartbeat that was stored after the clock was read counts as fresh. -/

/-- `now_ns`, `clock` nanoseconds after `START`. -/
def nowNs (clock : Nat) : UInt64 :=
  if clock < UInt64.size then .ofNat clock else .ofNat (UInt64.size - 1)

/-- `u64::saturating_sub`. -/
def saturatingSub (a b : UInt64) : UInt64 := if b ≤ a then a - b else 0

/-- `STALE_NS`. -/
def staleNs : UInt64 := 10000000000

/-- `WatchdogState`. -/
structure WatchdogState where
  lastNs : UInt64
deriving DecidableEq, Repr

namespace WatchdogState

/-- `WatchdogState::new`. -/
def new (clock : Nat) : WatchdogState := { lastNs := nowNs clock }

/-- `is_stale_ns`, with what `now_ns()` returned before the load. -/
def isStaleNs (w : WatchdogState) (thresholdNs now : UInt64) : Bool :=
  decide (thresholdNs < saturatingSub now w.lastNs)

/-- `is_stale`. -/
def isStale (w : WatchdogState) (now : UInt64) : Bool := w.isStaleNs staleNs now

end WatchdogState

theorem toNat_nowNs (clock : Nat) : (nowNs clock).toNat = min clock (UInt64.size - 1) := by
  unfold nowNs
  split
  · rename_i h
    rw [UInt64.toNat_ofNat_of_lt' h]
    omega
  · rename_i h
    have hlast : (UInt64.ofNat (UInt64.size - 1)).toNat = UInt64.size - 1 := rfl
    rw [hlast]
    omega

theorem toNat_saturatingSub (a b : UInt64) : (saturatingSub a b).toNat = a.toNat - b.toNat := by
  unfold saturatingSub
  split
  · rename_i h
    exact UInt64.toNat_sub_of_le _ _ h
  · rename_i h
    have := UInt64.lt_iff_toNat_lt.mp (UInt64.not_le.mp h)
    show 0 = _
    omega

/-- Stale, in times: the clock was read at `read` and the heartbeat was last touched at `beat`. -/
theorem isStale_iff (read beat : Nat) :
    (WatchdogState.new beat).isStale (nowNs read) = true ↔
      staleNs.toNat < min read (UInt64.size - 1) - min beat (UInt64.size - 1) := by
  rw [WatchdogState.isStale, WatchdogState.isStaleNs, decide_eq_true_iff, UInt64.lt_iff_toNat_lt,
    toNat_saturatingSub, toNat_nowNs, WatchdogState.new, toNat_nowNs]

/-! ## The pipeline around it

The checker is the same for both pipelines; what it watches is a parameter.  A touch has two halves
here, as a check has: the clock is read, and then something is stored or loaded, and in between the
other party may go on. -/

/-- A pipeline, as its watchdog sees it: the heartbeat, the flag, the steps of its ingest, and those
    of them that touch the heartbeat, with what they store in it. -/
structure Host (σ ℓ : Type) where
  step : σ → ℓ → Option σ
  watchdog : σ → WatchdogState
  cancelled : σ → Bool
  ingests : ℓ → Bool
  touch? : ℓ → Option UInt64
  touched : ∀ {s l s'}, step s l = some s' →
    (watchdog s').lastNs = (touch? l).getD (watchdog s).lastNs
  latched : ∀ {s l s'}, step s l = some s' → cancelled s = true → cancelled s' = true

/-- The checker of the threaded pipeline is `run_sync_checker`; that of the async pipeline is a
    `select!` of `cancelled()` and a sleep. -/
inductive Runtime
  | threaded
  | async
deriving DecidableEq, Repr

/-- Where the checker stands.  `wake` is when the sleep of this round ends. -/
inductive Checker
  | sleeping (wake : Nat)
  | awake (wake : Nat)              -- about to load the flag
  | checking (wake : Nat)           -- in `is_stale`, about to read the clock
  | reading (wake read : Nat)       -- the clock is read, the heartbeat is not
  | finished
deriving DecidableEq, Repr

/-- The end of this round's sleep. -/
def Checker.wake? : Checker → Option Nat
  | sleeping wake | awake wake | checking wake | reading wake _ => some wake
  | finished => none

/-- The end of this round's sleep, once it is over. -/
def Checker.started? : Checker → Option Nat
  | awake wake | checking wake | reading wake _ => some wake
  | _ => none

/-- The pause between two checks. -/
def checkIntervalNs : Nat := 5000000000

/-- A check made: when its clock was read, how many heartbeats had been stored when it loaded the
    last of them, and whether it warned. -/
structure Verdict where
  read : Nat
  seen : Nat
  warned : Bool
deriving DecidableEq, Repr

/-- A pipeline with its checker.  Between the two halves of `touch`, `touching` is when the ingest
    has read the clock.  `beats` are the heartbeats stored, each by the time it carries, and
    `verdicts` the checks made; no step depends on them. -/
structure Watched (σ : Type) where
  host : σ
  checker : Checker
  touching : Option Nat
  beats : List Nat
  verdicts : List Verdict

/-- A step of the pipeline, of the ingest within `touch`, or of the checker. -/
inductive WatchEvent (ℓ : Type)
  | host (l : ℓ)
  | touch             -- a payload is parsed, and the clock is read
  | check

namespace Watched

variable {σ ℓ : Type}

/-- The checker is spawned with the pipeline.  The first heartbeat is that of the start. -/
def start (init : σ) : Watched σ :=
  { host := init, checker := .sleeping checkIntervalNs, touching := none, beats := [0]
    verdicts := [] }

/-- `is_stale` loads the heartbeat, the clock having been read at `read`. -/
def verdict (host : Host σ ℓ) (s : Watched σ) (read : Nat) : Verdict :=
  { read := read
    seen := s.beats.length
    warned := (host.watchdog s.host).isStale (nowNs read) }

/-- The next step of the checker; `none` while it sleeps and when it has returned. -/
def check (host : Host σ ℓ) (rt : Runtime) (clock : Nat) (s : Watched σ) : Option (Watched σ) :=
  match s.checker with
  | .sleeping wake =>
    match rt with
    -- `thread::sleep` ends when it is due, whatever the flag says
    | .threaded => if wake ≤ clock then some { s with checker := .awake wake } else none
    -- the `select!` looks at the token first
    | .async =>
      if host.cancelled s.host then some { s with checker := .finished }
      else if wake ≤ clock then some { s with checker := .checking wake }
      else none
  | .awake wake =>
    if host.cancelled s.host then some { s with checker := .finished }
    else some { s with checker := .checking wake }
  -- `now_ns()`, and then the heartbeat is loaded
  | .checking wake => some { s with checker := .reading wake clock }
  | .reading _ read =>
    some { s with
      checker := .sleeping (clock + checkIntervalNs)
      verdicts := s.verdicts ++ [s.verdict host read] }
  | .finished => none

/-- One step at a time.  The ingest is one thread or task: within `touch` it does nothing else, and
    then it stores what it has read. -/
def act (host : Host σ ℓ) (rt : Runtime) (clock : Nat) (s : Watched σ) :
    WatchEvent ℓ → Option (Watched σ)
  | .touch => if s.touching = none then some { s with touching := some clock } else none
  | .host l =>
    match host.touch? l, s.touching with
    | none, none => (host.step s.host l).map fun h => { s with host := h }
    -- within `touch` the ingest has nothing else to do
    | none, some _ =>
      if host.ingests l then none else (host.step s.host l).map fun h => { s with host := h }
    | some _, none => none
    -- what is stored is what was read
    | some now, some read =>
      if now = nowNs read then
        (host.step s.host l).map fun h =>
          { s with host := h, touching := none, beats := s.beats ++ [read] }
      else none
  | .check => s.check host rt clock

/-- The time the heartbeat carries. -/
def lastBeat (s : Watched σ) : Nat := s.beats.getLastD 0

/-! ## What a step can do

The steps of the pipeline that do not touch, the two halves of a touch, and the checker's round. -/

/-- What one step can do, and when. -/
inductive Stepped (host : Host σ ℓ) (rt : Runtime) (clock : Nat) (s : Watched σ) :
    WatchEvent ℓ → Watched σ → Prop
  | quiet (l : ℓ) (h : σ) (moved : host.step s.host l = some h) (silent : host.touch? l = none) :
      Stepped host rt clock s (.host l) { s with host := h }
  | touch (idle : s.touching = none) :
      Stepped host rt clock s .touch { s with touching := some clock }
  | beat (l : ℓ) (h : σ) (read : Nat) (at_ : s.touching = some read)
      (moved : host.step s.host l = some h) (stores : host.touch? l = some (nowNs read)) :
      Stepped host rt clock s (.host l)
        { s with host := h, touching := none, beats := s.beats ++ [read] }
  | wake (wake : Nat) (checker : Checker) (at_ : s.checker = .sleeping wake) (due : wake ≤ clock)
      (next : checker = .awake wake ∨ rt = .async ∧ checker = .checking wake ∧
        host.cancelled s.host = false) :
      Stepped host rt clock s .check { s with checker := checker }
  | look (wake : Nat) (at_ : s.checker = .awake wake) (clear : host.cancelled s.host = false) :
      Stepped host rt clock s .check { s with checker := .checking wake }
  | read (wake : Nat) (at_ : s.checker = .checking wake) :
      Stepped host rt clock s .check { s with checker := .reading wake clock }
  | verdict (wake read : Nat) (at_ : s.checker = .reading wake read) :
      Stepped host rt clock s .check { s with
        checker := .sleeping (clock + checkIntervalNs)
        verdicts := s.verdicts ++ [s.verdict host read] }
  | leave (wake : Nat) (at_ : s.checker = .sleeping wake ∨ s.checker = .awake wake)
      (set : host.cancelled s.host = true) :
      Stepped host rt clock s .check { s with checker := .finished }

theorem stepped_of_act {host : Host σ ℓ} {rt : Runtime} {clock : Nat} {s s' : Watched σ}
    {e : WatchEvent ℓ} (h : s.act host rt clock e = some s') : Stepped host rt clock s e s' := by
  cases e with
  | touch =>
    obtain ⟨hidle, rfl⟩ := of_guard h
    exact .touch hidle
  | host l =>
    -- a step of the pipeline without a heartbeat is the pipeline's own
    have hquiet : host.touch? l = none →
        (host.step s.host l).map (fun g => { s with host := g }) = some s' →
        Stepped host rt clock s (.host l) s' := by
      intro hnone hmap
      obtain ⟨g, hstep, rfl⟩ := Option.map_eq_some_iff.mp hmap
      exact .quiet l g hstep hnone
    simp only [act] at h
    split at h
    · rename_i hnone _
      exact hquiet hnone h
    · rename_i hnone _
      exact hquiet hnone (Option.ite_none_left_eq_some.mp h).2
    · cases h
    · rename_i now read htouches hread
      obtain ⟨hnow, hmap⟩ := Option.ite_none_right_eq_some.mp h
      obtain ⟨g, hstep, rfl⟩ := Option.map_eq_some_iff.mp hmap
      exact .beat l g read hread hstep (hnow ▸ htouches)
  -- by where the checker stands, and then by whose loop it is
  | check =>
    simp only [act, check] at h
    cases hc : s.checker with
    | sleeping wake =>
      rw [hc] at h
      cases rt with
      | threaded =>
        obtain ⟨hdue, rfl⟩ := of_guard h
        exact .wake wake _ hc hdue (Or.inl rfl)
      | async =>
        simp only at h
        split at h
        · rename_i hset
          obtain rfl := Option.some.inj h
          exact .leave wake (Or.inl hc) hset
        · rename_i hclear
          obtain ⟨hdue, rfl⟩ := of_guard h
          exact .wake wake _ hc hdue (Or.inr ⟨rfl, rfl, Bool.eq_false_iff.mpr hclear⟩)
    | awake wake =>
      simp only [hc] at h
      split at h
      · rename_i hset
        obtain rfl := Option.some.inj h
        exact .leave wake (Or.inr hc) hset
      · rename_i hclear
        obtain rfl := Option.some.inj h
        exact .look wake hc (Bool.eq_false_iff.mpr hclear)
    | checking wake =>
      rw [hc] at h
      obtain rfl := Option.some.inj h
      exact .read wake hc
    | reading wake read =>
      rw [hc] at h
      obtain rfl := Option.some.inj h
      exact .verdict wake read hc
    | finished =>
      rw [hc] at h
      cases h

/-! ## What every run keeps

What a verdict means can only be said with the heartbeats in view that had been stored when it was
made.  `Sound` keeps for every verdict how many these were, and then it stays true whatever is
stored later. -/

/-- The heartbeat is the last beat, and no beat carries a later time: the ingest reads the clock and
    stores what it read, in turn, so the times stored never go back (`past`, `touching`).  That is
    why the one heartbeat a check loads speaks for all that were stored before it, and a verdict
    need only be held to those: `seen` of them, which later steps leave as they are.  And a check
    takes its time: `k` verdicts take `k` pauses. -/
structure Sound (host : Host σ ℓ) (clock : Nat) (s : Watched σ) : Prop where
  heart : (host.watchdog s.host).lastNs = nowNs s.lastBeat
  last : ∀ b ∈ s.beats, b ≤ s.lastBeat
  mem : s.lastBeat ∈ s.beats
  -- what the ingest and the checker hold in their hands is not from the future
  past : s.lastBeat ≤ clock
  touching : ∀ read, s.touching = some read → s.lastBeat ≤ read ∧ read ≤ clock
  due : ∀ wake, s.checker.started? = some wake → wake ≤ clock
  read : ∀ wake read, s.checker = .reading wake read → wake ≤ read ∧ read ≤ clock
  -- what the verdicts say, each about what had been stored by then
  made : ∀ v ∈ s.verdicts, v.read ≤ clock ∧ v.seen ≤ s.beats.length
  warned : ∀ v ∈ s.verdicts, v.warned = true →
    ∀ b ∈ s.beats.take v.seen, b + staleNs.toNat < v.read
  calm : ∀ v ∈ s.verdicts, v.warned = false → v.read < UInt64.size →
    ∃ b ∈ s.beats.take v.seen, v.read ≤ b + staleNs.toNat
  -- rounds of five seconds: how many checks there can have been
  round : ∀ wake, s.checker.wake? = some wake →
    (s.verdicts.length + 1) * checkIntervalNs ≤ wake ∧ wake ≤ clock + checkIntervalNs
  paced : s.verdicts.length * checkIntervalNs ≤ clock

theorem sound_start {host : Host σ ℓ} {init : σ}
    (hinit : (host.watchdog init).lastNs = nowNs 0) : Sound host 0 (start init) where
  heart := hinit
  last := fun b hb => Nat.le_of_eq (List.mem_singleton.mp hb)
  mem := List.mem_singleton.mpr rfl
  past := Nat.le_refl _
  touching := fun read h => by cases h
  due := fun wake h => by cases h
  read := fun wake read h => by cases h
  made := fun v hv => absurd hv List.not_mem_nil
  warned := fun v hv => absurd hv List.not_mem_nil
  calm := fun v hv => absurd hv List.not_mem_nil
  round := fun wake h => by
    obtain rfl := Option.some.inj h
    exact ⟨Nat.le_of_eq (Nat.one_mul _), Nat.le_add_left _ _⟩
  paced := Nat.le_of_eq (Nat.zero_mul _)

theorem Sound.later {host : Host σ ℓ} {now later : Nat} {s : Watched σ} (hle : now ≤ later)
    (h : Sound host now s) : Sound host later s :=
  { h with
    past := Nat.le_trans h.past hle
    touching := fun read ht =>
      ⟨(h.touching read ht).1, Nat.le_trans (h.touching read ht).2 hle⟩
    due := fun wake hw => Nat.le_trans (h.due wake hw) hle
    read := fun wake read hr => ⟨(h.read wake read hr).1, Nat.le_trans (h.read wake read hr).2 hle⟩
    made := fun v hv => ⟨Nat.le_trans (h.made v hv).1 hle, (h.made v hv).2⟩
    round := fun wake hw => ⟨(h.round wake hw).1, by have := (h.round wake hw).2; omega⟩
    paced := Nat.le_trans h.paced hle }

/-- What a verdict says of the last beat, whatever arrived since the clock was read. -/
theorem Sound.stale_iff {host : Host σ ℓ} {clock : Nat} {s : Watched σ} (h : Sound host clock s)
    (read : Nat) : (host.watchdog s.host).isStale (nowNs read) = true ↔
      staleNs.toNat < min read (UInt64.size - 1) - min s.lastBeat (UInt64.size - 1) := by
  have hnew : host.watchdog s.host = WatchdogState.new s.lastBeat := by
    cases hw : host.watchdog s.host with
    | mk lastNs =>
      have := h.heart
      rw [hw] at this
      exact congrArg WatchdogState.mk this
  rw [hnew, isStale_iff]

/-- A warning is of a silence. -/
theorem Sound.silence {host : Host σ ℓ} {clock : Nat} {s : Watched σ} (h : Sound host clock s)
    {read : Nat} (hs : (host.watchdog s.host).isStale (nowNs read) = true) :
    s.lastBeat + staleNs.toNat < read := by
  have := (h.stale_iff read).mp hs
  omega

/-- No warning means a beat that is recent, or came while the check was made. -/
theorem Sound.recent {host : Host σ ℓ} {clock : Nat} {s : Watched σ} (h : Sound host clock s)
    {read : Nat} (hsize : read < UInt64.size)
    (hs : (host.watchdog s.host).isStale (nowNs read) = false) :
    read ≤ s.lastBeat + staleNs.toNat := by
  have := (Bool.eq_false_iff.trans (not_congr (h.stale_iff read))).mp hs
  omega

/-- The checker moves on within its round. -/
theorem Sound.move {host : Host σ ℓ} {clock : Nat} {s : Watched σ} (h : Sound host clock s)
    {checker : Checker}
    (hwake : ∀ wake, checker.wake? = some wake → s.checker.wake? = some wake)
    (hdue : ∀ wake, checker.started? = some wake → wake ≤ clock)
    (hread : ∀ wake read, checker = .reading wake read → wake ≤ read ∧ read ≤ clock) :
    Sound host clock { s with checker := checker } :=
  { h with
    due := hdue
    read := hread
    round := fun wake hw => h.round wake (hwake wake hw) }

/-- **Step lemma** for `Sound`. -/
theorem Sound.step {host : Host σ ℓ} {rt : Runtime} {clock : Nat} {s s' : Watched σ}
    {e : WatchEvent ℓ} (h : Sound host clock s) (hs : Stepped host rt clock s e s') :
    Sound host clock s' := by
  cases hs with
  | quiet l g moved silent =>
    have hsame := host.touched moved
    rw [silent] at hsame
    exact { h with heart := hsame.trans h.heart }
  | touch idle =>
    refine { h with touching := fun read hr => ?_ }
    obtain rfl := Option.some.inj hr
    exact ⟨h.past, Nat.le_refl _⟩
  | beat l g read at_ moved stores =>
    obtain ⟨hlater, hpast⟩ := h.touching read at_
    have hstored := host.touched moved
    rw [stores] at hstored
    have hbeat : lastBeat { s with host := g, touching := none, beats := s.beats ++ [read] } =
        read := by
      simp [lastBeat]
    -- what a verdict has seen is there still
    have hseen : ∀ v ∈ s.verdicts, (s.beats ++ [read]).take v.seen = s.beats.take v.seen :=
      fun v hv => List.take_append_of_le_length (h.made v hv).2
    refine { h with
      heart := hbeat.symm ▸ hstored, last := ?_, mem := ?_, past := hbeat.symm ▸ hpast
      touching := fun r hr => by cases hr
      made := ?_, warned := ?_, calm := ?_ }
    · intro b hb
      rw [hbeat]
      rcases List.mem_append.mp hb with hb | hb
      · exact Nat.le_trans (h.last b hb) hlater
      · exact Nat.le_of_eq (List.mem_singleton.mp hb)
    · rw [hbeat]
      exact List.mem_append_right _ List.mem_cons_self
    · intro v hv
      refine ⟨(h.made v hv).1, Nat.le_trans (h.made v hv).2 ?_⟩
      rw [List.length_append]
      exact Nat.le_add_right _ _
    · intro v hv
      rw [hseen v hv]
      exact h.warned v hv
    · intro v hv
      rw [hseen v hv]
      exact h.calm v hv
  | wake wake checker at_ due next =>
    have hchecker : checker.wake? = some wake ∧ checker.started? = some wake ∧
        ∀ w r, checker ≠ .reading w r := by
      rcases next with rfl | ⟨_, rfl, _⟩
      · exact ⟨rfl, rfl, fun _ _ h => by cases h⟩
      · exact ⟨rfl, rfl, fun _ _ h => by cases h⟩
    refine h.move ?_ ?_ ?_
    · intro w hw
      rw [at_, ← hw, hchecker.1]
      rfl
    · intro w hw
      obtain rfl := Option.some.inj (hchecker.2.1.symm.trans hw)
      exact due
    · exact fun w r hr => absurd hr (hchecker.2.2 w r)
  | look wake at_ clear =>
    refine h.move (fun w hw => ?_) (fun w hw => ?_) fun w r hr => by cases hr
    · rw [at_]; exact hw
    · exact h.due w (by rw [at_]; exact hw)
  | read wake at_ =>
    refine h.move (fun w hw => ?_) (fun w hw => ?_) fun w r hr => ?_
    · rw [at_]; exact hw
    · exact h.due w (by rw [at_]; exact hw)
    · obtain ⟨rfl, rfl⟩ := Checker.reading.inj hr
      exact ⟨h.due wake (by rw [at_]; rfl), Nat.le_refl _⟩
  | verdict wake read at_ =>
    obtain ⟨hwr, hrc⟩ := h.read wake read at_
    have hround := (h.round wake (by rw [at_]; rfl)).1
    have hlen : (s.verdicts ++ [s.verdict host read]).length = s.verdicts.length + 1 := by simp
    have hall : s.beats.take (s.verdict host read).seen = s.beats := List.take_length
    refine { h with
      due := ?_, read := ?_, made := ?_, warned := ?_, calm := ?_, round := ?_, paced := ?_ }
    · intro w hw; cases hw
    · intro w r hr; cases hr
    · intro v hv
      rcases List.mem_append.mp hv with hv | hv
      · exact h.made v hv
      · obtain rfl := List.mem_singleton.mp hv
        exact ⟨hrc, Nat.le_refl _⟩
    · intro v hv hwarned b hb
      rcases List.mem_append.mp hv with hv | hv
      · exact h.warned v hv hwarned b hb
      · obtain rfl := List.mem_singleton.mp hv
        rw [hall] at hb
        exact Nat.lt_of_le_of_lt (Nat.add_le_add_right (h.last b hb) _) (h.silence hwarned)
    · intro v hv hwarned hsize
      rcases List.mem_append.mp hv with hv | hv
      · exact h.calm v hv hwarned hsize
      · obtain rfl := List.mem_singleton.mp hv
        rw [hall]
        exact ⟨s.lastBeat, h.mem, h.recent hsize hwarned⟩
    · intro w hw
      obtain rfl := Option.some.inj hw
      rw [hlen, Nat.succ_mul]
      exact ⟨by omega, Nat.le_refl _⟩
    · rw [hlen]
      omega
  | leave wake at_ set =>
    refine h.move ?_ ?_ ?_
    · intro w hw; cases hw
    · intro w hw; cases hw
    · intro w r hr; cases hr

variable {host : Host σ ℓ} {rt : Runtime} {init : σ} {s s' : Timed (Watched σ)}
  {ls : List (TimedEvent (WatchEvent ℓ))}

/-- `Sound` holds in every run. -/
theorem sound_run (hinit : (host.watchdog init).lastNs = nowNs 0)
    (h : run (Timed.step (act host rt)) ⟨0, start init⟩ ls = some s) :
    Sound host s.clock s.state :=
  Timed.invariant (I := Sound host) (fun _ _ _ hle hs => hs.later hle)
    (fun _ _ _ _ hs hk => hs.step (stepped_of_act hk)) (sound_start hinit) h

/-- What a step stores in the heartbeat. -/
def stored? (host : Host σ ℓ) : TimedEvent (WatchEvent ℓ) → Option UInt64
  | .act (.host l) => host.touch? l
  | _ => none

/-- The checker's round is at most `late` behind. -/
def Punctual (late : Nat) (s : Timed (Watched σ)) : Prop :=
  ∀ wake ∈ s.state.checker.wake?, s.clock ≤ wake + late

instance (late : Nat) : DecidablePred (Punctual (σ := σ) late) := fun s =>
  inferInstanceAs (Decidable (∀ wake ∈ s.state.checker.wake?, s.clock ≤ wake + late))

/-- This round began soon after a clock was read, and that check warned or there was no reason
    to.  With rounds of five seconds and a threshold of ten, a silence is met by a check within the
    round after it has become too long; a beat that comes later only takes the reason away. -/
def Timely (late : Nat) (s : Watched σ) : Prop :=
  ∀ wake, s.checker.wake? = some wake → wake ≤ checkIntervalNs ∨
    ∃ v ∈ s.verdicts, wake ≤ v.read + late + checkIntervalNs ∧
      (v.warned = true ∨ v.read ≤ s.lastBeat + staleNs.toNat ∨ UInt64.size ≤ v.read)

/-- A verdict ends a round that was not late. -/
theorem Sound.verdict {clock : Nat} {s : Watched σ} (h : Sound host clock s) {late wake read : Nat}
    (at_ : s.checker = .reading wake read) (hlate : clock ≤ wake + late) :
    clock ≤ read + late ∧ ((host.watchdog s.host).isStale (nowNs read) = true ∨
      read ≤ s.lastBeat + staleNs.toNat ∨ UInt64.size ≤ read) := by
  have hread := (h.read wake read at_).1
  refine ⟨by omega, ?_⟩
  cases hstale : (host.watchdog s.host).isStale (nowNs read) with
  | true => exact Or.inl rfl
  | false =>
    rcases Nat.lt_or_ge read UInt64.size with hsize | hsize
    · exact Or.inr (Or.inl (h.recent hsize hstale))
    · exact Or.inr (Or.inr hsize)

/-- **Step lemma** for `Timely`. -/
theorem Timely.step {late clock : Nat} {s s' : Watched σ} {e : WatchEvent ℓ} (h : Timely late s)
    (hsound : Sound host clock s) (hlate : ∀ wake, s.checker.wake? = some wake → clock ≤ wake + late)
    (hs : Stepped host rt clock s e s') : Timely late s' := by
  -- within a round, the last beat may only get later
  have hmove : ∀ {t : Watched σ}, t.verdicts = s.verdicts → s.lastBeat ≤ t.lastBeat →
      (∀ wake, t.checker.wake? = some wake → s.checker.wake? = some wake) → Timely late t := by
    intro t hv hb hw wake hwake
    rcases h wake (hw wake hwake) with hfirst | ⟨v, hmem, hround, hwhy⟩
    · exact Or.inl hfirst
    · refine Or.inr ⟨v, hv ▸ hmem, hround, hwhy.imp_right fun hrec => hrec.imp_left fun hle => ?_⟩
      omega
  cases hs with
  | quiet l g moved silent => exact hmove rfl (Nat.le_refl _) fun _ hw => hw
  | touch idle => exact hmove rfl (Nat.le_refl _) fun _ hw => hw
  | beat l g read reading moved stores =>
    refine hmove rfl ?_ fun _ hw => hw
    show _ ≤ (s.beats ++ [read]).getLastD 0
    rw [List.getLastD_concat]
    exact (hsound.touching read reading).1
  | wake wake checker at_ due next =>
    refine hmove rfl (Nat.le_refl _) fun w hw => ?_
    rw [at_]
    rcases next with rfl | ⟨_, rfl, _⟩
    · exact hw
    · exact hw
  | look wake at_ clear => exact hmove rfl (Nat.le_refl _) fun w hw => by rw [at_]; exact hw
  | read wake at_ => exact hmove rfl (Nat.le_refl _) fun w hw => by rw [at_]; exact hw
  | verdict wake read at_ =>
    obtain ⟨hclock, hwhy⟩ := hsound.verdict at_ (hlate wake (by rw [at_]; rfl))
    intro w hw
    obtain rfl := Option.some.inj hw
    exact Or.inr ⟨_, List.mem_append_right _ List.mem_cons_self,
      Nat.add_le_add_right hclock _, hwhy⟩
  | leave wake at_ set => exact fun w hw => by cases hw

/-- `Timely` holds in every prompt run. -/
theorem timely_run {late : Nat} (hinit : (host.watchdog init).lastNs = nowNs 0)
    (hP : Throughout (Timed.step (act host rt)) (Punctual late) ⟨0, start init⟩ ls)
    (h : run (Timed.step (act host rt)) ⟨0, start init⟩ ls = some s) : Timely late s.state := by
  -- `Timely` alone is not kept: that a stale heartbeat is seen as stale is `Sound`
  have hboth : Sound host s.clock s.state ∧ Timely late s.state := by
    refine run_invariant_throughout
      (I := fun t => Sound host t.clock t.state ∧ Timely late t.state) ?_ ls _ s
      ⟨sound_start hinit, fun wake hw => ?_⟩ hP h
    · intro t e t' ⟨hsound, htimely⟩ hpunctual _ he
      cases e with
      | elapse ns =>
        rw [Timed.step_elapse he]
        exact ⟨hsound.later (Nat.le_add_right _ _), htimely⟩
      | act k =>
        obtain ⟨hclock, hk⟩ := Timed.step_act he
        have hstepped := stepped_of_act hk
        rw [hclock]
        exact ⟨hsound.step hstepped, htimely.step hsound hpunctual hstepped⟩
    · obtain rfl := Option.some.inj hw
      exact Or.inl (Nat.le_refl _)
  exact hboth.2

/-- **A stall is warned of**: while the checker runs, a silence longer than the threshold, one pause
    and the delays of two rounds has been warned of, by a check made in that silence. -/
theorem stall_warned {late : Nat} (hinit : (host.watchdog init).lastNs = nowNs 0)
    (hP : Throughout (Timed.step (act host rt)) (Punctual late) ⟨0, start init⟩ ls)
    (h : run (Timed.step (act host rt)) ⟨0, start init⟩ ls = some s)
    (hruns : s.state.checker ≠ .finished) (hsize : s.clock < UInt64.size)
    (hsilent : s.state.lastBeat + staleNs.toNat + checkIntervalNs + 2 * late < s.clock) :
    ∃ v ∈ s.state.verdicts, v.warned = true ∧ s.state.lastBeat + staleNs.toNat < v.read := by
  obtain ⟨wake, hwake⟩ : ∃ wake, s.state.checker.wake? = some wake := by
    cases hc : s.state.checker with
    | finished => exact absurd hc hruns
    | _ => exact ⟨_, rfl⟩
  have hpunctual : Punctual late s := hP ls [] (List.append_nil _).symm s h
  have hlate := hpunctual wake hwake
  rcases timely_run hinit hP h wake hwake with hfirst | ⟨v, hv, hround, hwhy⟩
  · omega
  · have hmade := ((sound_run hinit h).made v hv).1
    -- it warned, or saw a later heartbeat, or the clock wrapped around; the last two cannot be
    rcases hwhy with hwarned | hrecent | hwrap
    · exact ⟨v, hv, hwarned, by omega⟩
    · omega
    · omega

/-! ## The checker's way out

The flag is looked at once in a round: after the sleep, or, by the async checker, as soon as its
`select!` is polled.  A check that was begun before it was set is still made. -/

/-- When a prompt checker has returned, once the flag is set. -/
def leaveBy (late : Nat) (s : Watched σ) : Nat :=
  match s.checker with
  | .sleeping wake | .awake wake => wake + late
  | .checking wake | .reading wake _ => wake + late + (checkIntervalNs + late)
  | .finished => 0

/-- The flag stays set. -/
theorem Stepped.cancelled {clock : Nat} {s s' : Watched σ} {e : WatchEvent ℓ}
    (hs : Stepped host rt clock s e s') (hset : host.cancelled s.host = true) :
    host.cancelled s'.host = true := by
  cases hs with
  | quiet l g moved silent => exact host.latched moved hset
  | beat l g read at_ moved stores => exact host.latched moved hset
  | _ => exact hset

/-- A checker that has returned stays so. -/
theorem Stepped.finished {clock : Nat} {s s' : Watched σ} {e : WatchEvent ℓ}
    (hs : Stepped host rt clock s e s') (hdone : s.checker = .finished) :
    s'.checker = .finished := by
  cases hs with
  | quiet l g moved silent => exact hdone
  | touch idle => exact hdone
  | beat l g read at_ moved stores => exact hdone
  | leave wake at_ set => rfl
  | wake wake checker at_ due next => rw [hdone] at at_; cases at_
  | look wake at_ clear => rw [hdone] at at_; cases at_
  | read wake at_ => rw [hdone] at at_; cases at_
  | verdict wake read at_ => rw [hdone] at at_; cases at_

/-- **Step lemma**: with the flag set, the way out gets no longer. -/
theorem Stepped.leaveBy_le {late clock : Nat} {s s' : Watched σ} {e : WatchEvent ℓ}
    (hs : Stepped host rt clock s e s') (hset : host.cancelled s.host = true)
    (hlate : ∀ wake, s.checker.wake? = some wake → clock ≤ wake + late) :
    s'.leaveBy late ≤ s.leaveBy late := by
  have hclear : host.cancelled s.host ≠ false := fun h => by rw [hset] at h; cases h
  cases hs with
  | quiet l g moved silent => exact Nat.le_refl _
  | touch idle => exact Nat.le_refl _
  | beat l g read at_ moved stores => exact Nat.le_refl _
  | wake wake checker at_ due next =>
    rcases next with rfl | ⟨_, _, clear⟩
    · simp only [leaveBy, at_]
      exact Nat.le_refl _
    · exact absurd clear hclear
  | look wake at_ clear => exact absurd clear hclear
  | read wake at_ =>
    simp only [leaveBy, at_]
    exact Nat.le_refl _
  | verdict wake read at_ =>
    -- the round that ends began its sleep at most `late` ago
    have := hlate wake (by rw [at_]; rfl)
    simp only [leaveBy, at_]
    omega
  | leave wake at_ set => exact Nat.zero_le _

/-- **Bounded response** of the checker to the flag. -/
theorem responds (host : Host σ ℓ) (rt : Runtime) (late : Nat) :
    Responds (Timed.step (act host rt)) Timed.clock
      (fun s => host.cancelled s.state.host = true ∧ Punctual late s)
      (fun s => s.state.checker = .finished) (fun s => s.state.leaveBy late) where
  stays := by
    intro s e s' _ hdone he
    cases e with
    | elapse ns => rw [Timed.step_elapse he]; exact hdone
    | act k => exact (stepped_of_act (Timed.step_act he).2).finished hdone
  sooner := by
    intro s e s' ⟨hset, hP⟩ _ he
    cases e with
    | elapse ns => rw [Timed.step_elapse he]; exact Or.inr (Nat.le_refl _)
    | act k => exact Or.inr ((stepped_of_act (Timed.step_act he).2).leaveBy_le hset hP)
  awaited := by
    intro s ⟨_, hP⟩
    cases hc : s.state.checker with
    | finished => exact Or.inl rfl
    | sleeping wake =>
      have := hP wake (by rw [hc]; rfl)
      simp only [leaveBy, hc]
      exact Or.inr this
    | awake wake =>
      have := hP wake (by rw [hc]; rfl)
      simp only [leaveBy, hc]
      exact Or.inr this
    | checking wake =>
      have := hP wake (by rw [hc]; rfl)
      simp only [leaveBy, hc]
      exact Or.inr (by omega)
    | reading wake read =>
      have := hP wake (by rw [hc]; rfl)
      simp only [leaveBy, hc]
      exact Or.inr (by omega)

end Watched

end RtsPipeline
