import HeapChurn.Proofs.Build.Listing
import HeapChurn.Session

/-!
# What a session settles on

Without a source of answers a value is the one of the command line or the default of the build, with
one exception: a burst limit is never taken from the defaults. `settles_except_burst` follows a
default from the file of the build to the session, and says for which builds and command lines the
exception makes a difference. A session for which it does runs all the same, without a limit.
-/

namespace HeapChurn

/-- The program that a build makes: its defaults and its table are the ones that are listed. -/
structure Edition.BuiltFrom (e : Edition) (baked : Baked) : Prop where
  defaults_listed : Listing.read? Listing.defaults baked.defaultsListing = some e.defaults
  table_listed : Listing.read? Listing.table baked.tableListing = some e.histogram.buckets

theorem Edition.builtFrom_iff {e : Edition} {baked : Baked} :
    e.BuiltFrom baked ↔ e.defaults = baked.defaults ∧ e.histogram.buckets = baked.table := by
  have hdefaults := (Listing.reads_defaults baked).read?
  have htable := (Listing.reads_table baked).read?
  constructor
  · rintro ⟨hd, ht⟩
    exact ⟨Option.some.inj (hd.symm.trans hdefaults), Option.some.inj (ht.symm.trans htable)⟩
  · rintro ⟨hd, ht⟩
    exact ⟨hd ▸ hdefaults, ht ▸ htable⟩

/-- Whatever library reads the file of a build, its defaults make a run. -/
theorem Build.runnable_of_ofText {text : String} {toml : Toml.Library} {baked : Baked}
    (h : Build.ofText text toml = .ok baked) : baked.defaults.Runnable := by
  unfold Build.ofText at h
  split at h
  · cases h
  · exact Build.checkDefaults_eq_ok_iff.mp (Build.ofDocument_eq_ok_iff_read.mp h).2.1

namespace Options

/-- The run that a build has by default; for a benchmark there is a thread for each processor. -/
def usual (o : Options) (d : Defaults) (processors : Nat) : Config :=
  { d.config with workers := o.usualThreads d processors }

/-- The values of a command line, and for those that it does not give the values of `c`. -/
def completedBy (o : Options) (c : Config) : Config where
  heapSlots := o.heapSlots.getD c.heapSlots
  iterations := o.iterations.getD c.iterations
  workers := o.threadCount.getD c.workers
  foreignAllocs := o.foreignAllocs.getD c.foreignAllocs
  foreignBurst := o.foreignBurst.or c.foreignBurst

/-- A command line that leaves a run as it is by default. -/
structure Bare (o : Options) : Prop where
  heapSlots : o.heapSlots = none
  iterations : o.iterations = none
  threadCount : o.threadCount = none
  foreignAllocs : o.foreignAllocs = none
  foreignBurst : o.foreignBurst = none
  bench : o.bench = false

variable {o : Options} {c : Config} {d : Defaults}

theorem Bare.completedBy (h : o.Bare) : o.completedBy c = c := by
  unfold Options.completedBy
  rw [h.heapSlots, h.iterations, h.threadCount, h.foreignAllocs, h.foreignBurst]
  rfl

theorem Bare.usual (h : o.Bare) (processors : Nat) : o.usual d processors = d.config := by
  unfold Options.usual usualThreads
  rw [h.bench]
  rfl

/-- Without a source of answers only the burst limit is not taken from the defaults. -/
theorem config_eq (processors : Nat) : o.config d processors
    = { o.completedBy (o.usual d processors) with foreignBurst := o.foreignBurst } := rfl

theorem completedBy_burst_eq_iff :
    { o.completedBy c with foreignBurst := o.foreignBurst } = o.completedBy c
      ↔ o.foreignBurst.isSome = true ∨ c.foreignBurst = none := by
  have hburst : { o.completedBy c with foreignBurst := o.foreignBurst } = o.completedBy c
      ↔ o.foreignBurst = o.foreignBurst.or c.foreignBurst := by
    simp [completedBy]
  rw [hburst]
  cases o.foreignBurst with
  | none => simp [eq_comm]
  | some burst => simp

end Options

namespace Session

/-- There is no source of answers where no file is named and nobody sits at a terminal or is to be
asked. -/
theorem answers?_eq_none {m : Type → Type} [Monad m] {host : Host m} {o : Options}
    (hinput : o.input = none) (hterminal : o.bench = true ∨ host.terminal = none) :
    answers? host o = none := by
  unfold answers?
  rw [hinput]
  rcases hterminal with hbench | hterminal
  · exact if_pos hbench
  · rw [hterminal]
    exact ite_self _

/-- Without a source of answers a session settles on the values of its command line and the defaults
of its build, but on no burst limit unless one is given. This makes no difference exactly where one
is given or the build has none. A session that is given nothing at all has a plan for the threads of
its build. -/
theorem settles_except_burst {m : Type → Type} [Monad m] (host : Host m) {text : String}
    {toml : Toml.Library} {baked : Baked} {e : Edition} {o : Options}
    (hbaked : Build.ofText text toml = .ok baked) (hbuilt : e.BuiltFrom baked)
    (hinput : o.input = none) (hterminal : o.bench = true ∨ host.terminal = none) :
    let wanted := o.completedBy (o.usual baked.defaults host.processors)
    let settled := { wanted with foreignBurst := o.foreignBurst }
    settleConfig host e o = pure settled
      ∧ (settled = wanted ↔ o.foreignBurst.isSome = true ∨ baked.defaults.foreignBurst = none)
      ∧ (o.Bare → wanted = baked.defaults.config
        ∧ ∃ plan, settled.plan = .ok plan ∧ plan.workers = baked.defaults.threads
          ∧ plan.foreignBurst = none) := by
  intro wanted settled
  have hdefaults : e.defaults = baked.defaults := (Edition.builtFrom_iff.mp hbuilt).1
  have hrunnable : baked.defaults.Runnable := Build.runnable_of_ofText hbaked
  refine ⟨?_, Options.completedBy_burst_eq_iff, fun hbare => ?_⟩
  · unfold settleConfig
    rw [answers?_eq_none hinput hterminal, hdefaults]
    exact congrArg pure (Options.config_eq host.processors)
  · have hwanted : wanted = baked.defaults.config := by
      change o.completedBy _ = _
      rw [hbare.completedBy, hbare.usual]
    refine ⟨hwanted, ?_⟩
    -- the defaults without their limit make a run, too
    have hunlimited : ({ baked.defaults with foreignBurst := none } : Defaults).Runnable :=
      ⟨hrunnable.threads_pos, hrunnable.threads_le, nofun⟩
    have hsettled : settled = ({ baked.defaults with foreignBurst := none } : Defaults).config := by
      change { wanted with foreignBurst := o.foreignBurst } = _
      rw [hwanted, hbare.foreignBurst]
      rfl
    obtain ⟨plan, hplan, hworkers, hburst, -⟩ := hunlimited.exists_plan
    exact ⟨plan, hsettled ▸ hplan, hworkers, hburst⟩

/-- A build file with a burst limit. -/
def limitedText : String :=
  "[defaults]\nforeign_burst = 100\n\n[[bucket]]\nsize = 8\ncount = 1\n"

/-- What a build fixes by it. -/
def limitedBaked : Baked := ⟨{ foreignBurst := some 100 }, [⟨8, 1⟩]⟩

def limitedEdition : Edition where
  defaults := limitedBaked.defaults
  histogram := ⟨limitedBaked.table, by decide, by decide⟩

theorem ofText_limitedText : Build.ofText limitedText = .ok limitedBaked := by decide +kernel

theorem limitedEdition_builtFrom : limitedEdition.BuiltFrom limitedBaked :=
  Edition.builtFrom_iff.mpr ⟨rfl, rfl⟩

/-- Given nothing, a session of this build runs without the limit of the build. -/
theorem settles_except_burst_limited :
    let o : Options := {}
    let settled : Config := { limitedBaked.defaults.config with foreignBurst := none }
    Build.ofText limitedText = .ok limitedBaked ∧ limitedEdition.BuiltFrom limitedBaked
      ∧ o.input = none ∧ (Desk.host 4 Report.timeFormat).terminal = none ∧ o.Bare
      ∧ settleConfig (Desk.host 4 Report.timeFormat) limitedEdition o = pure settled
      ∧ settled ≠ limitedBaked.defaults.config
      ∧ ∃ plan, settled.plan = .ok plan ∧ plan.workers = 16 ∧ plan.foreignBurst = none := by
  intro o settled
  have hbare : o.Bare := ⟨rfl, rfl, rfl, rfl, rfl, rfl⟩
  obtain ⟨hsettles, hiff, hplan⟩ := settles_except_burst (Desk.host 4 Report.timeFormat)
    ofText_limitedText limitedEdition_builtFrom (rfl : o.input = none) (.inr rfl)
  obtain ⟨hwanted, plan, hplan, hworkers, hburst⟩ := hplan hbare
  refine ⟨ofText_limitedText, limitedEdition_builtFrom, rfl, rfl, hbare, hsettles, ?_, plan, hplan,
    hworkers, hburst⟩
  intro heq
  exact absurd (hiff.mp (heq.trans hwanted.symm)) (by decide)

/-- It is not so that a session always settles on the defaults where nothing is given. -/
theorem not_settles_on_defaults : ¬∀ (host : Host (StateM Desk)) (text : String) (baked : Baked)
    (e : Edition) (words : List String) (o : Options), Build.ofText text = .ok baked →
    e.BuiltFrom baked → Invocation.ofWords words = .ok (.run o) → o.input = none →
    host.terminal = none →
    settleConfig host e o = pure (o.completedBy (o.usual e.defaults host.processors)) := by
  intro h
  have hsettles := h (Desk.host 4 Report.timeFormat) limitedText limitedBaked limitedEdition [] {}
    ofText_limitedText limitedEdition_builtFrom rfl rfl rfl
  have hconfig := congrArg Prod.fst (congrFun hsettles {})
  exact absurd (congrArg Config.foreignBurst (Except.ok.inj hconfig)) (by decide)

end Session

end HeapChurn
