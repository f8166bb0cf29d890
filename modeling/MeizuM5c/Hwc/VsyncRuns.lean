import MeizuM5c.Hwc.Vsync

/-!
What holds of a device in every run: when the thread sleeps, what it reports and for how
long, and that it has ended before anything is given back.
-/

namespace MeizuM5c.Hwc.Vsync

open Lib

/-- What a step can do. -/
inductive Effect (d : Device) : Action → Device → Prop
  | asleep (hpc : d.pc = .check) (hoff : d.vsyncOn = false) (hgo : d.stop = false) :
      Effect d .check { d with pc := .sleeping }
  | awake (hpc : d.pc = .check) (hgo : d.vsyncOn = true ∨ d.stop = true) :
      Effect d .check { d with pc := .look }
  | woken (hpc : d.pc = .sleeping) : Effect d .spuriousWake { d with pc := .check }
  | ended (hpc : d.pc = .look) (hstop : d.stop = true) : Effect d .look { d with pc := .done }
  | goesOn (hpc : d.pc = .look) (hgo : d.stop = false) : Effect d .look { d with pc := .waitVsync }
  | failed (hpc : d.pc = .waitVsync) : Effect d (.waitForVsync none) { d with pc := .check }
  | noPanel (hpc : d.pc = .waitVsync) : Effect d (.waitForVsync (some 0)) { d with pc := .clock }
  | waited (ts : Int) (hpc : d.pc = .waitVsync) :
      Effect d (.waitForVsync (some ts))
        { d with pc := .compare ts, observed := d.observed ++ [ts] }
  | clockRead (ts : Int) (hpc : d.pc = .clock) :
      Effect d (.readClock ts) { d with pc := .compare ts, observed := d.observed ++ [ts] }
  | stayed (ts : Int) (hpc : d.pc = .compare ts) : Effect d .compare { d with pc := .check }
  | advanced (ts : Int) (hpc : d.pc = .compare ts) (hne : ts ≠ d.lastTs) :
      Effect d .compare { d with lastTs := ts, pc := .test ts }
  | begun (ts : Int) (hpc : d.pc = .test ts) (hon : d.vsyncOn = true) :
      Effect d .test { d with pc := .testProcs ts }
  | skipped (ts : Int) (hpc : d.pc = .test ts) : Effect d .test { d with pc := .check }
  | answered (ts : Int) (hpc : d.pc = .testProcs ts) :
      Effect d .testProcs { d with pc := .call ts }
  | unanswered (ts : Int) (hpc : d.pc = .testProcs ts) :
      Effect d .testProcs { d with pc := .check }
  | reported (ts : Int) (hpc : d.pc = .call ts) :
      Effect d .call { d with pc := .check, calls := d.calls ++ [ts] }
  | registered (husing : d.owner = .using) : Effect d .registerProcs { d with procs := true }
  | switched (enabled : Bool) (husing : d.owner = .using) :
      Effect d (.eventControl enabled) { d with vsyncOn := enabled, pc := d.pc.signalled }
  | closing (husing : d.owner = .using) :
      Effect d .close { d with stop := true, owner := .joining, pc := d.pc.signalled }
  | joined (hjoining : d.owner = .joining) (hpc : d.pc = .done) :
      Effect d .join { d with owner := .joined, held := { d.held with vsyncThread := false } }
  | released (hjoined : d.owner = .joined) :
      Effect d .release { d with owner := .closed,
                                 held := { d.held with session := false, fbFd := false,
                                                       dispFd := false, geLib := false,
                                                       memory := false } }

theorem step_effect {d d' : Device} {a : Action} (hstep : Step d a d') : Effect d a d' := by
  unfold Step at hstep
  cases a with
  | check =>
      simp only [perform] at hstep
      split at hstep
      · next hpc =>
        obtain rfl := Option.some.inj hstep
        split_ifs with hsleep
        · rw [Bool.and_eq_true, Bool.not_eq_true', Bool.not_eq_true'] at hsleep
          exact .asleep hpc hsleep.1 hsleep.2
        · rw [Bool.and_eq_true, Bool.not_eq_true', Bool.not_eq_true', not_and_or,
            Bool.not_eq_false, Bool.not_eq_false] at hsleep
          exact .awake hpc hsleep
      · cases hstep
  | spuriousWake =>
      simp only [perform] at hstep
      split at hstep
      · next hpc =>
        obtain rfl := Option.some.inj hstep
        exact .woken hpc
      · cases hstep
  | look =>
      simp only [perform] at hstep
      split at hstep
      · next hpc =>
        obtain rfl := Option.some.inj hstep
        split_ifs with hstop
        · exact .ended hpc hstop
        · exact .goesOn hpc (Bool.eq_false_iff.mpr hstop)
      · cases hstep
  | waitForVsync answer =>
      simp only [perform] at hstep
      split at hstep
      · next hpc =>
        obtain rfl := Option.some.inj hstep
        exact .failed hpc
      · next ts hpc =>
        split_ifs at hstep with hzero
        · obtain rfl := Option.some.inj hstep
          rw [hzero]
          exact .noPanel hpc
        · obtain rfl := Option.some.inj hstep
          exact .waited ts hpc
      · cases hstep
  | readClock ts =>
      simp only [perform] at hstep
      split at hstep
      · next hpc =>
        obtain rfl := Option.some.inj hstep
        exact .clockRead ts hpc
      · cases hstep
  | compare =>
      simp only [perform] at hstep
      split at hstep
      · next ts hpc =>
        split_ifs at hstep with hsame
        · obtain rfl := Option.some.inj hstep
          exact .stayed ts hpc
        · obtain rfl := Option.some.inj hstep
          exact .advanced ts hpc hsame
      · cases hstep
  | test =>
      simp only [perform] at hstep
      split at hstep
      · next ts hpc =>
        obtain rfl := Option.some.inj hstep
        split_ifs with hcall
        · exact .begun ts hpc hcall
        · exact .skipped ts hpc
      · cases hstep
  | testProcs =>
      simp only [perform] at hstep
      split at hstep
      · next ts hpc =>
        obtain rfl := Option.some.inj hstep
        split_ifs
        · exact .answered ts hpc
        · exact .unanswered ts hpc
      · cases hstep
  | call =>
      simp only [perform] at hstep
      split at hstep
      · next ts hpc =>
        obtain rfl := Option.some.inj hstep
        exact .reported ts hpc
      · cases hstep
  | registerProcs =>
      simp only [perform] at hstep
      split_ifs at hstep with husing
      obtain rfl := Option.some.inj hstep
      exact .registered husing
  | eventControl enabled =>
      simp only [perform] at hstep
      split_ifs at hstep with husing
      obtain rfl := Option.some.inj hstep
      exact .switched enabled husing
  | close =>
      simp only [perform] at hstep
      split_ifs at hstep with husing
      obtain rfl := Option.some.inj hstep
      exact .closing husing
  | join =>
      simp only [perform] at hstep
      split at hstep
      · next hjoining hpc =>
        obtain rfl := Option.some.inj hstep
        exact .joined hjoining hpc
      · cases hstep
  | release =>
      simp only [perform] at hstep
      split_ifs at hstep with hjoined
      obtain rfl := Option.some.inj hstep
      exact .released hjoined

/-- Where the thread is and how far the owner is. -/
structure Sound (d : Device) : Prop where
  asleep : d.pc = .sleeping → d.vsyncOn = false ∧ d.stop = false
  stop : d.stop = true ↔ d.owner ≠ .using
  ended : d.pc = .done → d.stop = true
  joined : d.owner = .joined ∨ d.owner = .closed → d.pc = .done
  thread : d.held.vsyncThread = true ↔ d.owner = .using ∨ d.owner = .joining
  memory : d.owner ≠ .closed → d.held.memory = true
  closed : d.owner = .closed → d.held = {}

section Sound

variable {d d' : Device} {a : Action}

/-- The session and the library are not given back where `fhwc_open` fails after them. -/
theorem fhwcOpen_failed {io : OpenIo} (h : (fhwcOpen io).1 = false) :
    (fhwcOpen io).2 =
      { session := io.name && io.calloc && io.openDisp && io.createSession
        geLib := io.name && io.calloc && io.openDisp && io.createSession && io.getSessionInfo &&
          io.dlopen } := by
  obtain ⟨name, calloc, openDisp, openFb, createSession, getSessionInfo, dlopen, create⟩ := io
  cases name with
  | false => rfl
  | true =>
      cases calloc with
      | false => rfl
      | true =>
          cases openDisp with
          | false => rfl
          | true =>
              cases createSession with
              | false => rfl
              | true =>
                  cases getSessionInfo with
                  | false => rfl
                  | true =>
                      cases create with
                      | false => rfl
                      | true => cases h

theorem fhwcOpen_held {io : OpenIo} {h : Held} (hopen : fhwcOpen io = (true, h)) :
    h.memory = true ∧ h.vsyncThread = true := by
  obtain ⟨name, calloc, openDisp, openFb, createSession, getSessionInfo, dlopen, create⟩ := io
  cases name with
  | false => cases hopen
  | true =>
      cases calloc with
      | false => cases hopen
      | true =>
          cases openDisp with
          | false => cases hopen
          | true =>
              cases createSession with
              | false => cases hopen
              | true =>
                  cases getSessionInfo with
                  | false => cases hopen
                  | true =>
                      cases create with
                      | false => cases hopen
                      | true =>
                          cases hopen
                          exact ⟨rfl, rfl⟩

theorem Sound.initial (h : Initial d) : Sound d := by
  obtain ⟨io, hopen, hd⟩ := h
  obtain ⟨hmemory, hthread⟩ := fhwcOpen_held hopen
  rw [hd]
  constructor
  all_goals simp [hmemory, hthread]

/-- A signal only wakes a thread that sleeps. -/
theorem signalled_cases (pc : Pc) :
    (pc = .sleeping ∧ pc.signalled = .check) ∨ (pc ≠ .sleeping ∧ pc.signalled = pc) := by
  unfold Pc.signalled
  split_ifs with hpc
  · exact .inl ⟨hpc, rfl⟩
  · exact .inr ⟨hpc, rfl⟩

theorem Sound.step (h : Sound d) (hstep : Step d a d') : Sound d' := by
  obtain ⟨hasleep, hstop, hended, hjoined, hthread, hmemory, hclosed⟩ := h
  have hsignal := signalled_cases d.pc
  -- only `check` leaves a thread asleep, and what wakes it goes with a signal
  cases step_effect hstep
  all_goals constructor <;> grind

theorem sound (h : Reachable Initial Step d) : Sound d :=
  h.invariant (fun _ hd => Sound.initial hd) fun _ _ _ hd hstep => hd.step hstep

end Sound

/-- The timestamp that is `last_ts` already and not reported yet. -/
def Pc.ahead : Pc → Option Int
  | .test ts | .testProcs ts | .call ts => some ts
  | _ => none

/-- The timestamps, as far as the thread has come with the last of them. -/
structure Timed (d : Device) : Prop where
  reported : ∀ c ∈ d.calls, c ∈ d.observed
  known : d.calls = [] ∨ d.lastTs ∈ d.observed
  current : ∀ ts, d.pc = .compare ts → d.observed.getLast? = some ts
  passed : ∀ ts, d.pc.ahead = some ts → d.lastTs = ts ∧ ts ∈ d.observed
  rises : d.observed.Pairwise (· ≤ ·) →
    d.calls.Pairwise (· < ·) ∧ (∀ c ∈ d.calls, c ≤ d.lastTs) ∧
      ∀ ts, d.pc.ahead = some ts → ∀ c ∈ d.calls, c < ts

section Timed

variable {d d' : Device} {a : Action}

theorem le_getLast {l : List Int} {x y : Int} (h : l.Pairwise (· ≤ ·)) (hx : x ∈ l)
    (hy : l.getLast? = some y) : x ≤ y := by
  obtain ⟨l, rfl⟩ := List.getLast?_eq_some_iff.mp hy
  rcases List.mem_append.mp hx with hx | hx
  · exact (List.pairwise_append.mp h).2.2 x hx y (by simp)
  · rw [List.mem_singleton.mp hx]

theorem Timed.initial (h : Initial d) : Timed d := by
  obtain ⟨io, -, hd⟩ := h
  rw [hd]
  constructor
  all_goals simp [Pc.ahead]

theorem Pc.signalled_ahead (pc : Pc) : pc.signalled.ahead = pc.ahead := by
  rcases signalled_cases pc with ⟨hpc, hsignalled⟩ | ⟨-, hsignalled⟩
  · rw [hsignalled, hpc]
    rfl
  · rw [hsignalled]

/-- A step that leaves the timestamps alone. -/
theorem Timed.frame (h : Timed d) (hobserved : d'.observed = d.observed)
    (hcalls : d'.calls = d.calls) (hlast : d'.lastTs = d.lastTs)
    (hcompare : ∀ ts, d'.pc = .compare ts → d.pc = .compare ts)
    (hahead : ∀ ts, d'.pc.ahead = some ts → d.pc.ahead = some ts) :
    Timed d' := by
  obtain ⟨hreported, hknown, hcurrent, hpassed, hrises⟩ := h
  constructor
  · rw [hcalls, hobserved]
    exact hreported
  · rw [hcalls, hlast, hobserved]
    exact hknown
  · intro ts hts
    rw [hobserved]
    exact hcurrent ts (hcompare ts hts)
  · intro ts hts
    rw [hlast, hobserved]
    exact hpassed ts (hahead ts hts)
  · intro hsorted
    rw [hobserved] at hsorted
    obtain ⟨hstrict, hle, hlt⟩ := hrises hsorted
    rw [hcalls, hlast]
    exact ⟨hstrict, hle, fun ts hts => hlt ts (hahead ts hts)⟩

/-- The kernel has given a timestamp. -/
theorem Timed.observe (h : Timed d) (ts : Int) :
    Timed { d with pc := .compare ts, observed := d.observed ++ [ts] } := by
  obtain ⟨hreported, hknown, -, -, hrises⟩ := h
  constructor
  · exact fun c hc => List.mem_append_left _ (hreported c hc)
  · exact hknown.imp id (List.mem_append_left _)
  · intro ts' hts
    cases hts
    simp
  · intro ts' hts
    cases hts
  · intro hsorted
    obtain ⟨hstrict, hle, -⟩ := hrises (List.pairwise_append.mp hsorted).1
    refine ⟨hstrict, hle, ?_⟩
    intro ts' hts
    cases hts

/-- A timestamp that differs from the last one. -/
theorem Timed.advance (h : Timed d) {ts : Int} (hpc : d.pc = .compare ts) (hne : ts ≠ d.lastTs) :
    Timed { d with lastTs := ts, pc := .test ts } := by
  obtain ⟨hreported, hknown, hcurrent, -, hrises⟩ := h
  have hlast := hcurrent ts hpc
  have hin : ts ∈ d.observed := List.mem_of_getLast? hlast
  have hlater : d.observed.Pairwise (· ≤ ·) → ∀ c ∈ d.calls, c < ts := by
    intro hsorted c hc
    obtain ⟨-, hle, -⟩ := hrises hsorted
    rcases hknown with hnone | hknown
    · simp [hnone] at hc
    · have hup : d.lastTs ≤ ts := le_getLast hsorted hknown hlast
      have hc' := hle c hc
      omega
  constructor
  · exact hreported
  · exact .inr hin
  · intro ts' hts
    cases hts
  · intro ts' hts
    cases hts
    exact ⟨rfl, hin⟩
  · intro hsorted
    refine ⟨(hrises hsorted).1, fun c hc => (hlater hsorted c hc).le, ?_⟩
    intro ts' hts
    cases hts
    exact hlater hsorted

theorem Timed.report (h : Timed d) {ts : Int} (hpc : d.pc = .call ts) :
    Timed { d with pc := .check, calls := d.calls ++ [ts] } := by
  obtain ⟨hreported, -, -, hpassed, hrises⟩ := h
  have hahead : d.pc.ahead = some ts := by rw [hpc, Pc.ahead]
  obtain ⟨hlast, hin⟩ := hpassed ts hahead
  constructor
  · intro c hc
    rcases List.mem_append.mp hc with hc | hc
    · exact hreported c hc
    · rw [List.mem_singleton.mp hc]
      exact hin
  · exact .inr (by rw [hlast]; exact hin)
  · intro ts' hts
    cases hts
  · intro ts' hts
    cases hts
  · intro hsorted
    obtain ⟨hstrict, hle, hlt⟩ := hrises hsorted
    refine ⟨?_, ?_, ?_⟩
    · refine List.pairwise_append.mpr ⟨hstrict, List.pairwise_singleton _ _, ?_⟩
      intro c hc x hx
      rw [List.mem_singleton.mp hx]
      exact hlt ts hahead c hc
    · intro c hc
      rcases List.mem_append.mp hc with hc | hc
      · exact hle c hc
      · rw [List.mem_singleton.mp hc, hlast]
    · intro ts' hts
      cases hts

theorem Timed.step (h : Timed d) (hstep : Step d a d') : Timed d' := by
  -- the places between which a signal moves the thread have no timestamp
  have hsignal := signalled_cases d.pc
  have hahead := Pc.signalled_ahead d.pc
  cases step_effect hstep with
  | waited ts hpc => exact h.observe ts
  | clockRead ts hpc => exact h.observe ts
  | advanced ts hpc hne => exact h.advance hpc hne
  | begun ts hpc hon => exact h.frame rfl rfl rfl (by simp) (by simp [hpc, Pc.ahead])
  | answered ts hpc => exact h.frame rfl rfl rfl (by simp) (by simp [hpc, Pc.ahead])
  | reported ts hpc => exact h.report hpc
  | registered husing => exact h.frame rfl rfl rfl (fun _ => id) (fun _ => id)
  | joined hjoining hpc => exact h.frame rfl rfl rfl (fun _ => id) (fun _ => id)
  | released hjoined => exact h.frame rfl rfl rfl (fun _ => id) (fun _ => id)
  | switched enabled husing => exact h.frame rfl rfl rfl (by grind) (by simp [hahead])
  | closing husing => exact h.frame rfl rfl rfl (by grind) (by simp [hahead])
  | _ => exact h.frame rfl rfl rfl (by simp) (by simp [Pc.ahead])

end Timed

section Ending

variable {d d' : Device} {a : Action}

/-- How many steps of the thread are left once it is to stop. -/
def Pc.rank : Pc → Nat
  | .done => 0
  | .look => 1
  | .check => 2
  | .sleeping => 3
  | .call _ => 3
  | .testProcs _ => 4
  | .test _ => 5
  | .compare _ => 6
  | .clock => 7
  | .waitVsync => 8

/-- The calls that it may still make then. -/
def Pc.mayCall : Pc → Nat
  | .waitVsync | .clock | .compare _ | .test _ | .testProcs _ | .call _ => 1
  | _ => 0

theorem Pc.rank_le (pc : Pc) : pc.rank ≤ 8 := by
  cases pc <;> simp [Pc.rank]

theorem Pc.mayCall_le (pc : Pc) : pc.mayCall ≤ 1 := by
  cases pc <;> simp [Pc.mayCall]

theorem Pc.signalled_rank (pc : Pc) : pc.signalled.rank ≤ pc.rank := by
  rcases signalled_cases pc with ⟨hpc, hsignalled⟩ | ⟨-, hsignalled⟩
  · rw [hsignalled, hpc]
    decide
  · rw [hsignalled]

theorem Pc.signalled_mayCall (pc : Pc) : pc.signalled.mayCall = pc.mayCall := by
  rcases signalled_cases pc with ⟨hpc, hsignalled⟩ | ⟨-, hsignalled⟩
  · rw [hsignalled, hpc]
    rfl
  · rw [hsignalled]

theorem Pc.signalled_inFlight (pc : Pc) : pc.signalled.inFlight = pc.inFlight := by
  rcases signalled_cases pc with ⟨hpc, hsignalled⟩ | ⟨-, hsignalled⟩
  · rw [hsignalled, hpc]
    rfl
  · rw [hsignalled]

/-- What a step does to a thread that is to stop. -/
theorem stopping_step (hstop : d.stop = true) (hstep : Step d a d') :
    d'.stop = true ∧ d'.pc.rank + (if a.ofThread then 1 else 0) ≤ d.pc.rank ∧
      d'.calls.length + d'.pc.mayCall ≤ d.calls.length + d.pc.mayCall := by
  have hrank := Pc.signalled_rank d.pc
  have hmayCall := Pc.signalled_mayCall d.pc
  cases step_effect hstep with
  | asleep hpc hoff hgo =>
      rw [hstop] at hgo
      cases hgo
  | goesOn hpc hgo =>
      rw [hstop] at hgo
      cases hgo
  | registered husing => exact ⟨hstop, le_rfl, le_rfl⟩
  | switched enabled husing => exact ⟨hstop, hrank, by simp only [hmayCall, le_rfl]⟩
  | closing husing => exact ⟨rfl, hrank, by simp only [hmayCall, le_rfl]⟩
  | joined hjoining hpc => exact ⟨hstop, le_rfl, le_rfl⟩
  | released hjoined => exact ⟨hstop, le_rfl, le_rfl⟩
  | _ => simp_all [Pc.rank, Pc.mayCall, Action.ofThread]

/-- A thread that is awake can take its next step. -/
theorem goes_on (hawake : d.pc ≠ .sleeping) (hpc : d.pc ≠ .done) :
    ∃ a s, Action.ofThread a = true ∧ a ≠ .spuriousWake ∧ Step d a s := by
  cases hcase : d.pc with
  | check => exact ⟨.check, _, rfl, by decide, by rw [Step, perform, hcase]⟩
  | sleeping => exact absurd hcase hawake
  | look => exact ⟨.look, _, rfl, by decide, by rw [Step, perform, hcase]⟩
  | waitVsync =>
      exact ⟨.waitForVsync none, _, rfl, by decide, by simp only [Step, perform, hcase]; rfl⟩
  | clock => exact ⟨.readClock 0, _, rfl, by decide, by rw [Step, perform, hcase]⟩
  | compare ts =>
      by_cases hsame : ts = d.lastTs
      · exact ⟨.compare, { d with pc := .check }, rfl, by decide,
          by simp [Step, perform, hcase, hsame]⟩
      · exact ⟨.compare, { d with lastTs := ts, pc := .test ts }, rfl, by decide,
          by simp [Step, perform, hcase, hsame]⟩
  | test ts => exact ⟨.test, _, rfl, by decide, by rw [Step, perform, hcase]⟩
  | testProcs ts => exact ⟨.testProcs, _, rfl, by decide, by rw [Step, perform, hcase]⟩
  | call ts => exact ⟨.call, _, rfl, by decide, by rw [Step, perform, hcase]⟩
  | done => exact absurd hcase hpc

/-- What has been reported stays reported. -/
theorem calls_grow (hstep : Step d a d') : d.calls <+: d'.calls := by
  cases step_effect hstep with
  | reported ts hpc => exact List.prefix_append _ _
  | _ => exact List.prefix_rfl

/-- With the sync off the thread begins no call. -/
theorem off_step (hoff : d.vsyncOn = false) (hstep : OffStep d a d') :
    d'.vsyncOn = false ∧ d'.calls ++ d'.pc.inFlight <+: d.calls ++ d.pc.inFlight := by
  obtain ⟨hstep, hon⟩ := hstep
  have hinFlight := Pc.signalled_inFlight d.pc
  cases step_effect hstep with
  | begun ts hpc hbegun =>
      rw [hoff] at hbegun
      cases hbegun
  | registered husing => exact ⟨hoff, List.prefix_rfl⟩
  | joined hjoining hpc => exact ⟨hoff, List.prefix_rfl⟩
  | released hjoined => exact ⟨hoff, List.prefix_rfl⟩
  | switched enabled husing =>
      cases enabled with
      | false => exact ⟨rfl, by simp only [hinFlight, List.prefix_rfl]⟩
      | true => exact absurd rfl hon
  | closing husing => exact ⟨hoff, by simp only [hinFlight, List.prefix_rfl]⟩
  | _ => simp_all [Pc.inFlight]

end Ending

section Results

variable {d d₀ d' : Device}

/-- A device just opened. -/
def opened : Device :=
  { held := { memory := true, dispFd := true, session := true, geLib := true,
              vsyncThread := true } }

/-- Two reports, one of them by the clock, then a timestamp that does not advance and one that
the thread is about to report. -/
def sampleActions : List Action :=
  [.registerProcs, .check, .eventControl true, .check, .look, .waitForVsync (some 100), .compare,
    .test, .testProcs, .call, .check, .look, .waitForVsync (some 0), .readClock 250, .compare,
    .test, .testProcs, .call, .check, .look, .waitForVsync (some 250), .compare, .check, .look,
    .waitForVsync (some 400), .compare, .test, .testProcs]

/-- The state after them. -/
def sample : Device :=
  { opened with
    vsyncOn := true
    procs := true
    pc := .call 400
    lastTs := 400
    observed := [100, 250, 250, 400]
    calls := [100, 250] }

theorem sample_reachable : Reachable Initial Step sample := by
  have hopened : Initial opened :=
    ⟨⟨true, true, true, false, true, true, true, true⟩, rfl, rfl⟩
  have hrun : Run Step opened sampleActions sample := Run.of_foldlM rfl
  exact hrun.reachable (.init hopened)

/-- What is reported has been observed, and as long as the timestamps do not go back the
reports go forward. -/
theorem reports_go_forward (h : Reachable Initial Step d) :
    (∀ c ∈ d.calls, c ∈ d.observed) ∧
      (d.observed.Pairwise (· ≤ ·) → d.calls.Pairwise (· < ·)) := by
  have htimed : Timed d :=
    h.invariant (fun _ hd => Timed.initial hd) fun _ _ _ hd hstep => hd.step hstep
  exact ⟨htimed.reported, fun hsorted => (htimed.rises hsorted).1⟩

theorem reports_go_forward_sample :
    (∀ c ∈ sample.calls, c ∈ sample.observed) ∧ sample.calls.Pairwise (· < ·) := by
  obtain ⟨hobserved, hforward⟩ := reports_go_forward sample_reachable
  exact ⟨hobserved, hforward (by decide)⟩

/-- Once the sync has been switched off, nothing is reported but what the thread was about to
report when it last saw it on. -/
theorem silent_once_off (hoff : Step d (.eventControl false) d₀)
    (hrun : Reachable (· = d₀) OffStep d') :
    d.calls <+: d'.calls ∧ d'.calls <+: d.calls ++ d.pc.inFlight := by
  have hstart : d₀.vsyncOn = false ∧ d₀.calls = d.calls ∧ d₀.pc.inFlight = d.pc.inFlight := by
    cases step_effect hoff with
    | switched enabled husing => exact ⟨rfl, rfl, Pc.signalled_inFlight d.pc⟩
  obtain ⟨hoff₀, hcalls₀, hinFlight₀⟩ := hstart
  have hkept : d'.vsyncOn = false ∧ d'.calls ++ d'.pc.inFlight <+: d.calls ++ d.pc.inFlight ∧
      d.calls <+: d'.calls := by
    apply hrun.invariant (P := fun d' => d'.vsyncOn = false ∧
      d'.calls ++ d'.pc.inFlight <+: d.calls ++ d.pc.inFlight ∧ d.calls <+: d'.calls)
    · rintro s rfl
      rw [hcalls₀, hinFlight₀]
      exact ⟨hoff₀, List.prefix_rfl, List.prefix_rfl⟩
    · rintro s a t ⟨hs, hsame, hbefore⟩ hstep
      obtain ⟨ht, hsame'⟩ := off_step hs hstep
      exact ⟨ht, hsame'.trans hsame, hbefore.trans (calls_grow hstep.1)⟩
  exact ⟨hkept.2.2, (List.prefix_append _ _).trans hkept.2.1⟩

/-- The report that is on its way still comes, and then none. -/
theorem silent_once_off_sample :
    let s : Device := { sample with vsyncOn := false, pc := .sleeping, calls := [100, 250, 400] }
    sample.calls <+: s.calls ∧ s.calls <+: sample.calls ++ sample.pc.inFlight := by
  have hoff : Step sample (.eventControl false) { sample with vsyncOn := false } := rfl
  apply silent_once_off hoff
  apply Reachable.step (s := { sample with vsyncOn := false, pc := .check,
                                           calls := [100, 250, 400] }) _ (a := .check)
    ⟨rfl, by decide⟩
  exact Reachable.step (.init rfl) (a := .call) ⟨rfl, by decide⟩

/-- A thread that is to stop takes eight more steps at most, reports once more at most, and
can always go on by itself until it has ended. -/
theorem stops (h : Reachable Initial Step d) (hstop : d.stop = true) {actions : List Action}
    (hrun : Run Step d actions d') :
    actions.countP Action.ofThread ≤ 8 ∧ d'.calls.length ≤ d.calls.length + 1 ∧
      (d'.pc ≠ .done → ∃ a s, a.ofThread = true ∧ a ≠ .spuriousWake ∧ Step d' a s) := by
  refine ⟨?_, ?_, fun hpc => ?_⟩
  · have hturn : ∀ s a t, s.stop = true → Step s a t →
        t.stop = true ∧ t.pc.rank + (if a.ofThread then 1 else 0) ≤ s.pc.rank := by
      intro s a t hs hstep
      obtain ⟨ht, hrank, -⟩ := stopping_step hs hstep
      exact ⟨ht, hrank⟩
    have hcount := hrun.count_le hturn hstop
    have hrank := Pc.rank_le d.pc
    omega
  · have hbound : d'.stop = true ∧
        d'.calls.length + d'.pc.mayCall ≤ d.calls.length + d.pc.mayCall := by
      apply hrun.invariant (P := fun s => s.stop = true ∧
        s.calls.length + s.pc.mayCall ≤ d.calls.length + d.pc.mayCall) _ ⟨hstop, le_rfl⟩
      rintro s a t ⟨hs, hle⟩ hstep
      obtain ⟨ht, -, hcalls⟩ := stopping_step hs hstep
      exact ⟨ht, hcalls.trans hle⟩
    have hmayCall := Pc.mayCall_le d.pc
    omega
  · have hstopped : d'.stop = true := by
      apply hrun.invariant (P := fun s => s.stop = true) _ hstop
      intro s a t hs hstep
      exact (stopping_step hs hstep).1
    apply goes_on _ hpc
    intro hsleeping
    have hoff := ((sound (hrun.reachable h)).asleep hsleeping).2
    rw [hstopped] at hoff
    cases hoff

/-- Closed in front of a report, the thread makes it and ends. -/
theorem stops_sample :
    let d : Device := { sample with stop := true, owner := .joining }
    let s : Device := { d with pc := .done, calls := [100, 250, 400] }
    Run Step d [.call, .check, .look] s ∧ s.calls.length ≤ d.calls.length + 1 := by
  intro d s
  have hclosing : Reachable Initial Step d := sample_reachable.next .close rfl
  have hrun : Run Step d [.call, .check, .look] s := Run.of_foldlM rfl
  exact ⟨hrun, (stops hclosing rfl hrun).2.1⟩

end Results

end MeizuM5c.Hwc.Vsync
