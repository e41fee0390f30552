import ConsLisp.Frame.Containers
import ConsLisp.Proofs.Calling
import ConsLisp.Proofs.Points

/-!
# Containers are interchangeable

A scope may be held by any container that is a lawful frame.  Two frames in which the same can be
found (`Frame.Alike`) take and refuse the same bindings, have the same size and the same sorted
names, although they may list their bindings in different orders.  Environments that agree in this
sense, and in everything else to the letter, are related by a simulation
(`Environment.SameButContainers.simulation`), and so a session has the same reports whatever its
frames are made of.
-/

namespace ConsLisp

/-! ## Frames -/

namespace Frame

variable {F G : Type} [Frame F] [Frame G]

/-- The same can be found in both frames. -/
def Alike (f : F) (g : G) : Prop :=
  ∀ name, find? f name = find? g name

namespace Alike

variable [LawfulFrame F] [LawfulFrame G]

theorem empty : Alike (Frame.empty : F) (Frame.empty : G) := by
  intro name
  rw [LawfulFrame.find?_empty, LawfulFrame.find?_empty]

theorem ofList (bindings : List (String × Cell)) :
    Alike (Frame.ofList bindings : F) (Frame.ofList bindings : G) := by
  intro name
  rw [find?_ofList, find?_ofList]

variable {f : F} {g : G}

theorem names_eq (h : Alike f g) : names f = names g := by
  have hperm : (names f).Perm (names g) :=
    ((List.mergeSort_perm _ _).trans ((toList_perm h).map Prod.fst)).trans
      (List.mergeSort_perm _ _).symm
  exact hperm.eq_of_pairwise (fun _ _ _ _ => String.le_antisymm) (pairwise_le_names f)
    (pairwise_le_names g)

theorem insert? (h : Alike f g) {name : String} {value : Cell} {f' : F} {g' : G}
    (hf : Frame.insert? f name value = some f') (hg : Frame.insert? g name value = some g') :
    Alike f' g' := by
  intro n
  rw [find?_insert? hf, find?_insert? hg, h n]

theorem insert?_eq_none_iff (h : Alike f g) (name : String) (value : Cell) :
    Frame.insert? f name value = none ↔ Frame.insert? g name value = none := by
  rw [LawfulFrame.insert?_eq_none_iff, LawfulFrame.insert?_eq_none_iff, h name]

/-- A binding is added to both frames or to neither. -/
theorem insertNew (h : Alike f g) (name : String) (value : Cell) :
    (Frame.insertNew f name value).1 = (Frame.insertNew g name value).1 ∧
      Alike (Frame.insertNew f name value).2 (Frame.insertNew g name value).2 := by
  have hnone := h.insert?_eq_none_iff name value
  unfold Frame.insertNew
  cases hf : Frame.insert? f name value with
  | none =>
    rw [hnone.1 hf]
    exact ⟨rfl, h⟩
  | some f' =>
    cases hg : Frame.insert? g name value with
    | none =>
      rw [hnone.2 hg] at hf
      cases hf
    | some g' => exact ⟨rfl, h.insert? hf hg⟩

theorem insertAll (h : Alike f g) (bindings : List (String × Cell)) :
    (Frame.insertAll f bindings).1 = (Frame.insertAll g bindings).1 := by
  induction bindings generalizing f g with
  | nil => rfl
  | cons b bindings ih =>
    obtain ⟨name, value⟩ := b
    obtain ⟨hadded, hrest⟩ := h.insertNew name value
    exact congrArg₂ List.cons hadded (ih hrest)

omit [LawfulFrame F] [LawfulFrame G] in
/-- The innermost frame that binds a name is as far down on both stacks. -/
theorem findSome?_eq {fs : List F} {gs : List G} (h : List.Forall₂ Alike fs gs) (name : String) :
    fs.findSome? (fun frame => find? frame name) = gs.findSome? fun frame => find? frame name := by
  induction h with
  | nil => rfl
  | cons hfirst _ ih => rw [List.findSome?_cons, List.findSome?_cons, hfirst name, ih]

end Alike

end Frame

/-! ## Environments -/

namespace Environment

variable {F G : Type} [Frame F] [Frame G]

/-- The same environment, up to the containers of its frames. -/
structure SameButContainers (env : Environment F) (env' : Environment G) : Prop where
  globals : Frame.Alike env.globals env'.globals
  locals : List.Forall₂ Frame.Alike env.locals env'.locals
  output_eq : env.output = env'.output
  events_eq : env.events = env'.events

namespace SameButContainers

variable {env : Environment F} {env' : Environment G}

theorem fresh [LawfulFrame F] [LawfulFrame G] (output : Sink) :
    (Environment.fresh output : Environment F).SameButContainers
      (Environment.fresh output : Environment G) :=
  ⟨.empty, .nil, rfl, rfl⟩

theorem depth_eq (h : env.SameButContainers env') : env.depth = env'.depth := by
  rw [depth, depth, h.locals.length_eq]

theorem record (h : env.SameButContainers env') (event : Event) :
    (env.record event).SameButContainers (env'.record event) where
  globals := h.globals
  locals := h.locals
  output_eq := h.output_eq
  events_eq := congrArg (·.push event) h.events_eq

theorem record_depth (h : env.SameButContainers env') (event : Nat → Event) :
    (env.record (event env.depth)).SameButContainers (env'.record (event env'.depth)) := by
  rw [h.depth_eq]
  exact h.record _

theorem with_globals (h : env.SameButContainers env') {globals : F} {globals' : G}
    (hglobals : Frame.Alike globals globals') :
    { env with globals }.SameButContainers { env' with globals := globals' } :=
  ⟨hglobals, h.locals, h.output_eq, h.events_eq⟩

theorem with_locals (h : env.SameButContainers env') {locals : List F} {locals' : List G}
    (hlocals : List.Forall₂ Frame.Alike locals locals') :
    { env with locals }.SameButContainers { env' with locals := locals' } :=
  ⟨h.globals, hlocals, h.output_eq, h.events_eq⟩

theorem push (h : env.SameButContainers env') {frame : F} {frame' : G}
    (hframe : Frame.Alike frame frame') : (env.push frame).SameButContainers (env'.push frame') :=
  (h.with_locals (.cons hframe h.locals)).record_depth .pushedFrame

theorem pop (h : env.SameButContainers env') : env.pop.SameButContainers env'.pop := by
  have htail {locals : List F} {locals' : List G} (h : List.Forall₂ Frame.Alike locals locals') :
      List.Forall₂ Frame.Alike locals.tail locals'.tail := by
    cases h with
    | nil => exact .nil
    | cons _ hrest => exact hrest
  exact (h.with_locals (htail h.locals)).record_depth .poppedFrame

/-- Nothing that is done with an environment depends on what its frames are made of. -/
theorem simulation [LawfulFrame F] [LawfulFrame G] :
    Environment.Simulation (SameButContainers (F := F) (G := G)) where
  depth_eq := depth_eq
  lookup?_eq h name := by
    rw [lookup?, lookup?, Frame.Alike.findSome?_eq h.locals, h.globals name]
  isGloballyBound_eq h name := by
    rw [isGloballyBound, isGloballyBound, Frame.contains, Frame.contains, h.globals name]
  globalNames_eq h := h.globals.names_eq
  record h event _ := h.record event
  write_eq h _ := by rw [write, write, h.output_eq]
  refusal_eq h := by rw [h.output_eq]
  write h text :=
    ⟨h.globals, h.locals, by rw [write, write, h.output_eq], h.events_eq⟩
  define h _ _ _ _ _ hinsert hinsert' :=
    (h.with_globals (h.globals.insert? hinsert hinsert')).record _
  push h bindings := h.push (.ofList bindings)
  pop := pop

end SameButContainers

end Environment

/-! ## Sessions -/

namespace Session

variable {F G : Type} [Frame F] [Frame G]

open Environment (SameButContainers)

theorem newEvents_eq {env last : Environment F} {env' last' : Environment G}
    (h : env.SameButContainers env') (hlast : last.SameButContainers last') :
    newEvents env last = newEvents env' last' := by
  rw [newEvents, newEvents, h.events_eq, hlast.events_eq]

theorem Observation.between_eq {env last : Environment F} {env' last' : Environment G}
    (h : env.SameButContainers env') (hlast : last.SameButContainers last') :
    Observation.between env last = Observation.between env' last' := by
  rw [Observation.between, Observation.between, h.output_eq, hlast.output_eq, newEvents_eq h hlast,
    hlast.depth_eq]

theorem take_single (budget : Nat) (operation : Operation) (env : Environment F) :
    take budget (.single operation) env =
      (.single (operation.take budget env).1 (.between env (operation.take budget env).2),
        (operation.take budget env).2) := rfl

theorem take_scope (budget : Nat) (bindings : List (String × Cell)) (steps : List Step)
    (env : Environment F) :
    take budget (.scope bindings steps) env =
      let pushed := env.push (Frame.ofList bindings)
      let inner := takeAll budget steps pushed
      (.scope (Frame.insertAll (Frame.empty : F) bindings).1 pushed.depth (newEvents env pushed)
        inner.1 (.between inner.2 inner.2.pop), inner.2.pop) := rfl

mutual

/-- A step is reported alike, and leaves alike environments behind. -/
theorem take_alike [LawfulFrame F] [LawfulFrame G] (budget : Nat) :
    ∀ (step : Step) {env : Environment F} {env' : Environment G}, env.SameButContainers env' →
      (take budget step env).1 = (take budget step env').1 ∧
        (take budget step env).2.SameButContainers (take budget step env').2
  | .single operation, env, env', h => by
    obtain ⟨hanswer, hlast⟩ := operation.take_related SameButContainers.simulation budget h
    rw [take_single, take_single, hanswer, Observation.between_eq h hlast]
    exact ⟨rfl, hlast⟩
  | .scope bindings steps, env, env', h => by
    have hadded := (Frame.Alike.empty (F := F) (G := G)).insertAll bindings
    have hpushed := h.push (.ofList bindings)
    obtain ⟨hreports, hlast⟩ := takeAll_alike budget steps hpushed
    rw [take_scope, take_scope]
    dsimp only
    rw [hadded, hpushed.depth_eq, newEvents_eq h hpushed, hreports,
      Observation.between_eq hlast hlast.pop]
    exact ⟨rfl, hlast.pop⟩

theorem takeAll_alike [LawfulFrame F] [LawfulFrame G] (budget : Nat) :
    ∀ (steps : List Step) {env : Environment F} {env' : Environment G}, env.SameButContainers env' →
      (takeAll budget steps env).1 = (takeAll budget steps env').1 ∧
        (takeAll budget steps env).2.SameButContainers (takeAll budget steps env').2
  | [], _, _, h => ⟨rfl, h⟩
  | step :: steps, env, env', h => by
    obtain ⟨hreport, hmid⟩ := take_alike budget step h
    obtain ⟨hreports, hlast⟩ := takeAll_alike budget steps hmid
    exact ⟨congrArg₂ List.cons hreport hreports, hlast⟩

end

/-- **The container of a frame cannot be observed.**  A session with frames of one kind and the same
session with frames of another are reported alike, step by step and scope by scope, and they pass
the same points, at which the same can be found in every scope, the same bytes are printed and the
same events are on record.  The list of global names is in either case strictly sorted, and a name
is on it exactly if it is bound. -/
theorem container_is_unobservable (F G : Type) [Frame F] [LawfulFrame F] [Frame G] [LawfulFrame G]
    (budget : Nat) (output : Sink) (steps : List Step) :
    reportsTo F budget output steps = reportsTo G budget output steps ∧
    (∀ now : Point F, (Point.start output steps).Leads budget now →
      ∃ now' : Point G, (Point.start output steps).Leads budget now' ∧
        now.Related SameButContainers now' ∧
        now.env.globalNames = now'.env.globalNames ∧
        Operation.globalNames.take budget now.env = (.names now.env.globalNames, now.env) ∧
        now.env.globalNames.Pairwise (· < ·) ∧
        ∀ name, name ∈ now.env.globalNames ↔ now.env.isGloballyBound name = true) := by
  refine ⟨(takeAll_alike budget steps (.fresh output)).1, fun now hnow => ?_⟩
  have hsim := SameButContainers.simulation (F := F) (G := G)
  have hstart : Point.Related SameButContainers (Point.start output steps : Point F)
      (Point.start output steps : Point G) := ⟨.fresh output, rfl⟩
  obtain ⟨now', hnow', hrelated⟩ := hsim.leads hstart hnow
  exact ⟨now', hnow', hrelated, hsim.globalNames_eq hrelated.env,
    Operation.take_globalNames budget now.env, Frame.pairwise_lt_names now.env.globals,
    fun _ => Frame.mem_names_iff⟩

/-- A hash table and a search tree refuse the same binding of a scope, and a definition that is made
in it is seen in both. -/
theorem container_is_unobservable_in_scope :
    let inner : List Step := [.single (.evaluate (Operator.define.form [.symbol "b", .symbol "x"]))]
    let steps : List Step := [.scope [("x", .integer 1), ("x", .integer 2)] inner,
      .single (.lookup "b"), .single .globalNames]
    let output : Sink := .empty (some 0) "closed"
    reportsTo HashFrame 3 output steps = reportsTo OrderedFrame 3 output steps ∧
    (∃ reported seen seen' rest, reportsTo HashFrame 3 output steps =
      .scope [true, false] 2 [.pushedFrame 2] reported seen ::
        .single (.value (.integer 1)) seen' :: rest) ∧
    ∃ last : Point HashFrame, (Point.start output steps).Leads 3 last ∧ last.todo = [[]] ∧
      last.env.globalNames.Pairwise (· < ·) ∧
      ("b" ∈ last.env.globalNames ↔ last.env.isGloballyBound "b" = true) := by
  intro inner steps output
  obtain ⟨hreports, hpoints⟩ := container_is_unobservable HashFrame OrderedFrame 3 output steps
  have hlast := leads_takeAll 3 steps (Environment.fresh output : Environment HashFrame) []
  obtain ⟨-, -, -, -, -, hsorted, hmem⟩ := hpoints _ hlast
  refine ⟨hreports, ?_, _, hlast, rfl, hsorted, hmem "b"⟩
  rw [hreports]
  exact ⟨_, _, _, _, rfl⟩

end Session

end ConsLisp
