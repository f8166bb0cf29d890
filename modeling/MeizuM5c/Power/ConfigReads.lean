import MeizuM5c.Power.ParseConfig

/-!
When `ParseConfig` gets to its end. An accessor of jsoncpp fails on a value of
the wrong type, and the author of the document chooses the types. The
conditions below are about the document alone, in the order in which it is
read: what comes after something that is refused is never looked at.
-/

namespace MeizuM5c.Power

open Lib

section Condition

variable (acc : JsonAccess)

/-- The value converts to a text that is not empty. -/
def HasText (v : Json) : Prop := ∃ text, acc.asString v = some text ∧ text ≠ ""

def HasType (v : Json) (type : String) : Prop := acc.asString (v.member "Type") = some type

/-- The path of a ppm floor has a default. -/
def ppmPath (v : Json) : Json :=
  v.memberOr "Path" (.string "/proc/ppm/policy/userlimit_min_cpu_freq")

def aggregateValue (v : Json) : Json := v.memberOr "Aggregate" (.string "max_int")

def releaseValue (v : Json) : Json := v.memberOr "Release" (.string "default")

/-- The checks of a node that depend on its type. -/
def TypeAccepted (v : Json) : Prop :=
  (HasType acc v "cpufreq_floor" ∧ HasText acc (v.member "Policy")) ∨
  (HasType acc v "ppm_floor" ∧ acc.isInt (v.member "Cluster") = true) ∨
  (HasType acc v "value" ∧ (acc.asString (aggregateValue v) = some "max_int" ∨
    acc.asString (aggregateValue v) = some "max_fields")) ∨
  HasType acc v "pulse"

def PathAccepted (v : Json) : Prop :=
  (HasType acc v "ppm_floor" → HasText acc (ppmPath v)) ∧
  (HasType acc v "value" ∨ HasType acc v "pulse" → HasText acc (v.member "Path"))

def ReleaseAccepted (v : Json) : Prop :=
  acc.asString (releaseValue v) = some "default" ∨
  HasType acc v "value" ∧ (acc.asString (releaseValue v) = some "none" ∨
    acc.asString (releaseValue v) = some "capture")

def NodeValid (v : Json) : Prop :=
  TypeAccepted acc v ∧ PathAccepted acc v ∧ ReleaseAccepted acc v

structure NodeReadable (v : Json) : Prop where
  container : v.hasMembers = true
  type : (v.member "Type").Scalar
  cpufreq : HasType acc v "cpufreq_floor" → (v.member "Policy").Scalar
  ppm : HasType acc v "ppm_floor" → acc.isInt (v.member "Cluster") = true →
    (ppmPath v).Scalar ∧ (v.member "MaxPath").Scalar
  value : HasType acc v "value" →
    (v.member "Path").Scalar ∧ (v.member "Default").Scalar ∧ (aggregateValue v).Scalar
  pulse : HasType acc v "pulse" → (v.member "Path").Scalar ∧ (v.member "DurationPath").Scalar
  rest : TypeAccepted acc v → PathAccepted acc v →
    (v.memberOr "Order" (.int 0)).Within (-2147483648) 2147483647 ∧ (releaseValue v).Scalar

def NodesValid (nodes : Json) : Prop :=
  ∀ name ∈ nodes.memberNames, NodeValid acc (nodes.member name)

def NodesReadable (nodes : Json) : Prop :=
  nodes.hasMembers = true ∧
    UpTo (fun name => NodeReadable acc (nodes.member name))
      (fun name => NodeValid acc (nodes.member name)) nodes.memberNames

def IsPulse (nodes : Json) (name : String) : Prop :=
  name ∈ nodes.memberNames ∧ HasType acc (nodes.member name) "pulse"

/-- A node that a set may name. -/
def IsSettable (nodes : Json) (name : String) : Prop :=
  name ∈ nodes.memberNames ∧ ¬ HasType acc (nodes.member name) "pulse"

/-- What is no object counts as an empty set. -/
def SetValid (nodes v : Json) : Prop :=
  v.isObject = true → ∀ key ∈ v.memberNames, IsSettable acc nodes key

def SetReadable (v : Json) : Prop :=
  v.isObject = true → ∀ key ∈ v.memberNames, (v.member key).Scalar

def NamesPulse (nodes p : Json) : Prop :=
  ∃ name, acc.asString p = some name ∧ IsPulse acc nodes name

structure RequestValid (nodes : Json) (source : String) (r : Json) : Prop where
  pulse : ∀ p ∈ (r.member "Pulse").elements, NamesPulse acc nodes p
  set : SetValid acc nodes (r.member "Set")
  launch : source = "launch" → ∃ n, acc.asInt (r.memberOr "MaxMs" (.int 0)) = some n ∧ 0 < n

structure RequestReadable (nodes r : Json) : Prop where
  container : r.hasMembers = true
  times : ∀ key ∈ [("HoldMs", 0), ("PulseMs", 0), ("PulseMaxMs", 1000), ("FlingMinMs", 0),
    ("MaxMs", 0)], (r.memberOr key.1 (.int key.2)).Within (-2147483648) 2147483647
  ignore : (r.memberOr "IgnoreZeroDuration" (.bool false)).Numeric
  pulse : UpTo Json.Scalar (NamesPulse acc nodes) (r.member "Pulse").elements
  set : (∀ p ∈ (r.member "Pulse").elements, NamesPulse acc nodes p) →
    SetReadable (r.member "Set")

/-- A known request that is accepted. -/
def SourceValid (nodes requests : Json) (source : String) : Prop :=
  source ∈ ["interaction", "fling", "launch"] ∧
    RequestValid acc nodes source (requests.member source)

def RequestsValid (nodes requests : Json) : Prop :=
  ∀ source ∈ requests.memberNames, SourceValid acc nodes requests source

def RequestsReadable (nodes requests : Json) : Prop :=
  requests.hasMembers = true ∧
    UpTo (fun source => source ∈ ["interaction", "fling", "launch"] →
        RequestReadable acc nodes (requests.member source))
      (SourceValid acc nodes requests) requests.memberNames

structure AdpfValid (nodes adpf : Json) : Prop where
  levels : ∀ level ∈ (adpf.member "Levels").elements, SetValid acc nodes level
  enabled : acc.asBool (adpf.memberOr "Enabled" (.bool false)) = some true →
    (adpf.member "Levels").elements ≠ []

structure AdpfReadable (nodes adpf : Json) : Prop where
  enabled : (adpf.memberOr "Enabled" (.bool false)).Numeric
  times : ∀ key ∈ [("ReportRateMs", 100), ("StaleMs", 150)],
    (adpf.memberOr key.1 (.int key.2)).Within (-9223372036854775808) 9223372036854775807
  lowWater : (adpf.memberOr "LowWater" (.real (4 / 5))).Numeric
  levels : UpTo SetReadable (SetValid acc nodes) (adpf.member "Levels").elements

def NamesReadable (v : Json) : Prop := v.isArray = true → ∀ name ∈ v.elements, name.Scalar

/-- Every part is readable, once those before it have been accepted. An `Adpf`
that is no object is not looked at. -/
structure ConfigReadable (root : Json) : Prop where
  nodes : NodesReadable acc (root.member "Nodes")
  requests : NodesValid acc (root.member "Nodes") →
    RequestsReadable acc (root.member "Nodes") (root.member "Requests")
  adpf : NodesValid acc (root.member "Nodes") →
    RequestsValid acc (root.member "Nodes") (root.member "Requests") →
    (root.member "Adpf").isObject = true →
    AdpfReadable acc (root.member "Nodes") (root.member "Adpf")
  supported : NodesValid acc (root.member "Nodes") →
    RequestsValid acc (root.member "Nodes") (root.member "Requests") →
    ((root.member "Adpf").isObject = true →
      AdpfValid acc (root.member "Nodes") (root.member "Adpf")) →
    (root.member "Supported").hasMembers = true ∧
      NamesReadable ((root.member "Supported").member "Boosts") ∧
      NamesReadable ((root.member "Supported").member "Modes")

end Condition

section Calls

variable {acc : JsonAccess} {v : Json}

theorem outcome_pure {α : Type} (a : α) {done : Prop} (h : done) :
    Outcome ParseStop.abort (pure a : Parse α) True done :=
  (Outcome.ok _ a).congr Iff.rfl (fun _ => (iff_true_intro h).symm)

theorem outcome_fail {α : Type} (what : String) {done : Prop} (h : ¬ done) :
    Outcome ParseStop.abort (fail what : Parse α) True done := by
  have herror : Outcome ParseStop.abort (fail what : Parse α) True False := Outcome.error nofun
  exact herror.congr Iff.rfl (fun _ => (iff_false_intro h).symm)

theorem outcome_convert {α : Type} (result : Option α) {P : Prop} (h : result.isSome ↔ P) :
    Outcome ParseStop.abort (convert result) P True := by
  refine ⟨(avoids_convert_iff result).trans h, fun hP => iff_true_intro ?_⟩
  obtain ⟨a, ha⟩ := Option.isSome_iff_exists.mp (h.mpr hP)
  exact ⟨a, convert_eq_ok_iff.mpr ha⟩

theorem index_of_members (hv : v.hasMembers = true) (key : String) :
    v.index key = .ok (v.member key) := if_pos hv

theorem get_of_members (hv : v.hasMembers = true) (key : String) (default : Json) :
    v.get key default = .ok (v.memberOr key default) := if_pos hv

theorem asStringAt_eq_ok {key text : String} (h : asStringAt acc v key = .ok text) :
    acc.asString (v.member key) = some text := by
  obtain ⟨value, hvalue, htext⟩ := bind_eq_ok_iff.mp h
  obtain ⟨-, rfl⟩ := Json.index_eq_ok_iff.mp hvalue
  exact convert_eq_ok_iff.mp htext

/-- A member or its default, converted. -/
theorem get_convert_eq_ok {α : Type} {conv : Json → Option α} {key : String} {default : Json}
    {a : α} (h : (v.get key default >>= fun value => convert (conv value)) = .ok a) :
    conv (v.memberOr key default) = some a := by
  obtain ⟨value, hvalue, ha⟩ := bind_eq_ok_iff.mp h
  obtain ⟨-, rfl⟩ := Json.get_eq_ok_iff.mp hvalue
  exact convert_eq_ok_iff.mp ha

variable (hacc : acc.Documented) (hv : v.hasMembers = true)
include hacc hv

theorem outcome_asStringAt (key : String) :
    Outcome ParseStop.abort (asStringAt acc v key) (v.member key).Scalar True := by
  rw [asStringAt, index_of_members hv, ok_bind]
  exact outcome_convert _ (hacc.asString_isSome _)

theorem outcome_asStringOr (key : String) (default : Json) :
    Outcome ParseStop.abort (asStringOr acc v key default) (v.memberOr key default).Scalar
      True := by
  rw [asStringOr, get_of_members hv, ok_bind]
  exact outcome_convert _ (hacc.asString_isSome _)

theorem outcome_asIntOr (key : String) (default : Int) :
    Outcome ParseStop.abort (asIntOr acc v key default)
      ((v.memberOr key (.int default)).Within (-2147483648) 2147483647) True := by
  rw [asIntOr, get_of_members hv, ok_bind]
  exact outcome_convert _ (hacc.asInt_isSome _)

theorem outcome_asInt64Or (key : String) (default : Int) :
    Outcome ParseStop.abort (asInt64Or acc v key default)
      ((v.memberOr key (.int default)).Within (-9223372036854775808) 9223372036854775807)
      True := by
  rw [asInt64Or, get_of_members hv, ok_bind]
  exact outcome_convert _ (hacc.asInt64_isSome _)

theorem outcome_asBoolOr (key : String) (default : Bool) :
    Outcome ParseStop.abort (asBoolOr acc v key default)
      (v.memberOr key (.bool default)).Numeric True := by
  rw [asBoolOr, get_of_members hv, ok_bind]
  exact outcome_convert _ (hacc.asBool_isSome _)

end Calls

section Nodes

variable {acc : JsonAccess} (hacc : acc.Documented) {v : Json} (hv : v.hasMembers = true)

section Types

include hacc hv

theorem outcome_parseCpufreqFloor (name : String) :
    Outcome ParseStop.abort (parseCpufreqFloor acc name v) (v.member "Policy").Scalar
      (HasText acc (v.member "Policy")) := by
  refine (outcome_asStringAt hacc hv "Policy").bind_of_safe fun policy hpolicy => ?_
  replace hpolicy := asStringAt_eq_ok hpolicy
  split_ifs with hempty
  · apply outcome_fail
    rintro ⟨text, htext, hne⟩
    rw [hpolicy, Option.some.injEq] at htext
    exact hne (htext.symm.trans hempty)
  · exact outcome_pure _ ⟨policy, hpolicy, hempty⟩

theorem outcome_parsePpmFloor (name : String) :
    Outcome ParseStop.abort (parsePpmFloor acc name v)
      (acc.isInt (v.member "Cluster") = true →
        (ppmPath v).Scalar ∧ (v.member "MaxPath").Scalar)
      (acc.isInt (v.member "Cluster") = true) := by
  rw [parsePpmFloor, index_of_members hv, ok_bind]
  split_ifs with hnot
  · rw [Bool.not_eq_true'] at hnot
    refine (outcome_fail _ ?_).congr ?_ (fun _ => Iff.rfl)
    · simp [hnot]
    · simp [hnot]
  · rw [Bool.not_eq_true', Bool.not_eq_false] at hnot
    have hcluster : (acc.asInt (v.member "Cluster")).isSome ↔ True :=
      iff_true_intro ((hacc.asInt_isSome _).mpr (hacc.isInt_within _ hnot))
    refine ((outcome_asStringOr hacc hv "Path" _).bind_of_true fun path _ =>
      (outcome_asStringAt hacc hv "MaxPath").bind_of_safe fun maxPath _ =>
      (outcome_convert _ hcluster).bind_of_safe fun cluster _ =>
      outcome_pure _ hnot).congr ?_ (fun _ => Iff.rfl)
    simp [hnot, ppmPath]

omit hacc hv in
theorem outcome_parseAggregate (name text : String) :
    Outcome ParseStop.abort (parseAggregate name text) True
      (text = "max_int" ∨ text = "max_fields") := by
  unfold parseAggregate
  split_ifs with hint hfields
  · exact outcome_pure _ (Or.inl hint)
  · exact outcome_pure _ (Or.inr hfields)
  · exact outcome_fail _ (not_or.mpr ⟨hint, hfields⟩)

theorem outcome_parseValue (name : String) :
    Outcome ParseStop.abort (parseValue acc name v)
      ((v.member "Path").Scalar ∧ (v.member "Default").Scalar ∧ (aggregateValue v).Scalar)
      (acc.asString (aggregateValue v) = some "max_int" ∨
        acc.asString (aggregateValue v) = some "max_fields") := by
  refine (outcome_asStringAt hacc hv "Path").bind_of_true fun path _ =>
    (outcome_asStringAt hacc hv "Default").bind_of_true fun defaultValue _ =>
    (outcome_asStringOr hacc hv "Aggregate" _).bind_of_safe fun text htext => ?_
  have haggregate : acc.asString (aggregateValue v) = some text := get_convert_eq_ok htext
  rw [haggregate, Option.some.injEq, Option.some.injEq]
  refine ((outcome_parseAggregate name text).bind fun aggregate _ =>
    outcome_pure _ trivial).congr ?_ ?_
  · simp
  · simp

theorem outcome_parsePulse (name : String) :
    Outcome ParseStop.abort (parsePulse acc name v)
      ((v.member "Path").Scalar ∧ (v.member "DurationPath").Scalar) True :=
  (outcome_asStringAt hacc hv "Path").bind_of_true fun _ _ =>
    (outcome_asStringAt hacc hv "DurationPath").bind_of_safe fun _ _ => outcome_pure _ trivial

/-- The part of a node that depends on its type. -/
theorem outcome_parseNodeOf (name : String) {type : String} (htype : HasType acc v type) :
    Outcome ParseStop.abort (parseNodeOf acc name type v)
      ((HasType acc v "cpufreq_floor" → (v.member "Policy").Scalar) ∧
        (HasType acc v "ppm_floor" → acc.isInt (v.member "Cluster") = true →
          (ppmPath v).Scalar ∧ (v.member "MaxPath").Scalar) ∧
        (HasType acc v "value" → (v.member "Path").Scalar ∧ (v.member "Default").Scalar ∧
          (aggregateValue v).Scalar) ∧
        (HasType acc v "pulse" → (v.member "Path").Scalar ∧ (v.member "DurationPath").Scalar))
      (TypeAccepted acc v) := by
  have hiff (other : String) : HasType acc v other ↔ type = other := by
    unfold HasType at htype ⊢
    rw [htype, Option.some.injEq]
  unfold parseNodeOf TypeAccepted
  simp only [hiff]
  split_ifs with hcpufreq hppm hvalue hpulse
  · refine (outcome_parseCpufreqFloor hacc hv name).congr ?_ ?_
    · simp [hcpufreq]
    · simp [hcpufreq]
  · refine (outcome_parsePpmFloor hacc hv name).congr ?_ ?_
    · simp [hppm]
    · simp [hppm]
  · refine (outcome_parseValue hacc hv name).congr ?_ ?_
    · simp [hvalue]
    · simp [hvalue]
  · refine (outcome_parsePulse hacc hv name).congr ?_ ?_
    · simp [hpulse]
    · simp [hpulse]
  · refine (outcome_fail _ ?_).congr ?_ (fun _ => Iff.rfl)
    · simp [hcpufreq, hppm, hvalue, hpulse]
    · simp [hcpufreq, hppm, hvalue, hpulse]

end Types

omit hacc hv in
theorem hasText_iff {v : Json} {text : String} (h : acc.asString v = some text) :
    HasText acc v ↔ text ≠ "" := by
  simp [HasText, h]

/-- What the rest of the parse sees of the node. -/
structure NodeSeen (acc : JsonAccess) (v : Json) (node : NodeConfig) : Prop where
  path : node.path ≠ "" ↔ PathAccepted acc v
  value : node.type = .value ↔ HasType acc v "value"
  pulse : node.type = .pulse ↔ HasType acc v "pulse"

omit hacc hv in
theorem parseNodeOf_seen {name type : String} {node : NodeConfig} (htype : HasType acc v type)
    (h : parseNodeOf acc name type v = .ok node) : NodeSeen acc v node := by
  have hiff (other : String) : HasType acc v other ↔ type = other := by
    unfold HasType at htype ⊢
    rw [htype, Option.some.injEq]
  unfold parseNodeOf at h
  split_ifs at h with hcpufreq hppm hvalue hpulse
  · unfold parseCpufreqFloor at h
    obtain ⟨policy, -, h⟩ := bind_eq_ok_iff.mp h
    split_ifs at h
    · exact absurd h fail_ne_ok
    · cases h
      constructor <;> simp [PathAccepted, hiff, hcpufreq]
  · unfold parsePpmFloor at h
    obtain ⟨cluster, -, h⟩ := bind_eq_ok_iff.mp h
    split_ifs at h
    · exact absurd h fail_ne_ok
    · obtain ⟨path, hpath, h⟩ := bind_eq_ok_iff.mp h
      obtain ⟨maxPath, -, h⟩ := bind_eq_ok_iff.mp h
      obtain ⟨n, -, h⟩ := bind_eq_ok_iff.mp h
      cases h
      have htext : HasText acc (ppmPath v) ↔ path ≠ "" := hasText_iff (get_convert_eq_ok hpath)
      constructor <;> simp [PathAccepted, hiff, hppm, htext]
  · unfold parseValue at h
    obtain ⟨path, hpath, h⟩ := bind_eq_ok_iff.mp h
    obtain ⟨defaultValue, -, h⟩ := bind_eq_ok_iff.mp h
    obtain ⟨text, -, h⟩ := bind_eq_ok_iff.mp h
    obtain ⟨aggregate, -, h⟩ := bind_eq_ok_iff.mp h
    cases h
    have htext := hasText_iff (asStringAt_eq_ok hpath)
    constructor <;> simp [PathAccepted, hiff, hvalue, htext]
  · unfold parsePulse at h
    obtain ⟨path, hpath, h⟩ := bind_eq_ok_iff.mp h
    obtain ⟨durationPath, -, h⟩ := bind_eq_ok_iff.mp h
    cases h
    have htext := hasText_iff (asStringAt_eq_ok hpath)
    constructor <;> simp [PathAccepted, hiff, hpulse, htext]
  · exact absurd h fail_ne_ok

theorem outcome_parseRelease (name text : String) :
    Outcome ParseStop.abort (parseRelease name text) True
      (text = "default" ∨ text = "none" ∨ text = "capture") := by
  unfold parseRelease
  split_ifs with hdefault hnone hcapture
  · exact outcome_pure _ (Or.inl hdefault)
  · exact outcome_pure _ (Or.inr (Or.inl hnone))
  · exact outcome_pure _ (Or.inr (Or.inr hcapture))
  · exact outcome_fail _ (by simp [hdefault, hnone, hcapture])

theorem parseRelease_default_iff {name text : String} {release : Release}
    (h : parseRelease name text = .ok release) : release = .default ↔ text = "default" := by
  unfold parseRelease at h
  split_ifs at h with hdefault
  · cases h
    simp [hdefault]
  · cases h
    simp [hdefault]
  · cases h
    simp [hdefault]
  · exact absurd h fail_ne_ok

include hacc hv in
theorem outcome_parseNodeRest (name : String) {node : NodeConfig} (hseen : NodeSeen acc v node) :
    Outcome ParseStop.abort (parseNodeRest acc name v node)
      (PathAccepted acc v → (v.memberOr "Order" (.int 0)).Within (-2147483648) 2147483647 ∧
        (releaseValue v).Scalar)
      (PathAccepted acc v ∧ ReleaseAccepted acc v) := by
  unfold parseNodeRest
  split_ifs with hempty
  · have hnot : ¬ PathAccepted acc v := fun h => hseen.path.mpr h hempty
    refine (outcome_fail _ ?_).congr ?_ (fun _ => Iff.rfl)
    · exact fun h => hnot h.1
    · simp [hnot]
  · have hpath : PathAccepted acc v := hseen.path.mp hempty
    simp only [hpath, true_implies, true_and]
    refine (outcome_asIntOr hacc hv "Order" 0).bind_of_true fun order _ =>
      (outcome_asStringOr hacc hv "Release" _).bind_of_safe fun text htext => ?_
    have hrelease : acc.asString (releaseValue v) = some text := get_convert_eq_ok htext
    refine ((outcome_parseRelease name text).bind fun release hparsed =>
      (?_ : Outcome _ _ True (text = "default" ∨ HasType acc v "value"))).congr ?_ ?_
    · rw [← parseRelease_default_iff hparsed, ← hseen.value]
      split_ifs with hboth
      · exact outcome_fail _ (not_or.mpr hboth)
      · exact outcome_pure _ ((not_and_or.mp hboth).imp not_not.mp not_not.mp)
    · simp
    · intro _
      simp only [ReleaseAccepted, hrelease, Option.some.injEq]
      exact or_and_left.symm.trans (or_congr_right and_comm)

include hacc in
theorem outcome_parseNode (name : String) (v : Json) :
    Outcome ParseStop.abort (parseNode acc name v) (NodeReadable acc v) (NodeValid acc v) := by
  by_cases hv : v.hasMembers = true
  · refine ((outcome_asStringAt hacc hv "Type").bind_of_true fun type htype =>
      (outcome_parseNodeOf hacc hv name (asStringAt_eq_ok htype)).bind fun node hnode =>
      outcome_parseNodeRest hacc hv name
        (parseNodeOf_seen (asStringAt_eq_ok htype) hnode)).congr ?_ (fun _ => Iff.rfl)
    constructor
    · rintro ⟨htype, ⟨hcpufreq, hppm, hvalue, hpulse⟩, hrest⟩
      exact ⟨hv, htype, hcpufreq, hppm, hvalue, hpulse, hrest⟩
    · exact fun h => ⟨h.type, ⟨h.cpufreq, h.ppm, h.value, h.pulse⟩, h.rest⟩
  · refine ⟨iff_of_false ?_ (fun h => hv h.container), fun h => absurd h.container hv⟩
    rw [parseNode, asStringAt, avoids_bind_iff, avoids_bind_iff, Json.avoids_index_iff]
    exact fun h => hv h.1.1

theorem parseNode_seen {name : String} {node : NodeConfig}
    (h : parseNode acc name v = .ok node) :
    node.name = name ∧ (node.type = .pulse ↔ HasType acc v "pulse") := by
  refine ⟨(parseNode_ok h).name, ?_⟩
  unfold parseNode at h
  obtain ⟨type, htype, h⟩ := bind_eq_ok_iff.mp h
  obtain ⟨base, hbase, h⟩ := bind_eq_ok_iff.mp h
  rw [← (parseNodeOf_seen (asStringAt_eq_ok htype) hbase).pulse]
  unfold parseNodeRest at h
  split_ifs at h
  · exact absurd h fail_ne_ok
  · obtain ⟨order, -, h⟩ := bind_eq_ok_iff.mp h
    obtain ⟨text, -, h⟩ := bind_eq_ok_iff.mp h
    obtain ⟨release, -, h⟩ := bind_eq_ok_iff.mp h
    split_ifs at h
    · exact absurd h fail_ne_ok
    · cases h
      exact Iff.rfl

theorem outcome_getMemberNames (v : Json) :
    Outcome ParseStop.abort v.getMemberNames (v.hasMembers = true) True := by
  refine ⟨Json.avoids_getMemberNames_iff v, fun h => iff_true_intro ?_⟩
  exact ⟨_, Json.getMemberNames_eq_ok_iff.mpr ⟨h, rfl⟩⟩

include hacc in
theorem outcome_parseNodes (nodes : Json) :
    Outcome ParseStop.abort (parseNodes acc nodes) (NodesReadable acc nodes)
      (NodesValid acc nodes) := by
  refine (outcome_getMemberNames nodes).bind_of_true fun names hnames => ?_
  obtain ⟨hmembers, rfl⟩ := Json.getMemberNames_eq_ok_iff.mp hnames
  apply Outcome.mapM
  intro name _
  rw [index_of_members hmembers, ok_bind]
  exact outcome_parseNode hacc name _

end Nodes

section Sets

variable {acc : JsonAccess} (hacc : acc.Documented)

theorem exists_find?_ofEntries_iff {α : Type} {entries : List (String × α)} {key : String} :
    (∃ value, (ofEntries entries).find? key = some value) ↔ key ∈ entries.map Prod.fst := by
  constructor
  · rintro ⟨value, h⟩
    exact List.mem_map_of_mem (f := Prod.fst) (find?_ofEntries h)
  · unfold ofEntries
    induction entries using List.reverseRecOn with
    | nil => simp
    | append_singleton entries e ih =>
        rw [List.foldl_append, List.foldl_cons, List.foldl_nil, List.map_append, List.mem_append]
        intro h
        by_cases heq : key = e.1
        · exact ⟨e.2, by rw [heq, OrdMap.find?_insert_self]⟩
        · rw [OrdMap.find?_insert_of_ne _ _ heq]
          exact ih (h.resolve_right (by simpa using heq))

/-- The types that the checks look up are those in the document. -/
structure TypesMatch (acc : JsonAccess) (nodes : Json) (types : OrdMap String NodeType) :
    Prop where
  pulse : ∀ name, types.find? name = some .pulse ↔ IsPulse acc nodes name
  settable : ∀ name, (∃ t, types.find? name = some t ∧ t ≠ .pulse) ↔ IsSettable acc nodes name

theorem typesMatch_of_parseNodes {v : Json} {nodes : List NodeConfig}
    (h : parseNodes acc v = .ok nodes) : TypesMatch acc v (typesOf nodes) := by
  have hnames := (parseNodes_ok h).1
  have hkey (name : String) :
      (∃ t, (typesOf nodes).find? name = some t) ↔ name ∈ v.memberNames := by
    rw [typesOf, exists_find?_ofEntries_iff, ← hnames, List.map_map]
    rfl
  have htype {name : String} {t : NodeType} (hfind : (typesOf nodes).find? name = some t) :
      t = .pulse ↔ HasType acc (v.member name) "pulse" := by
    obtain ⟨node, hnode, rfl, rfl⟩ := typesOf_find? hfind
    unfold parseNodes at h
    obtain ⟨names, -, hall⟩ := bind_eq_ok_iff.mp h
    obtain ⟨key, -, hkey⟩ := exists_of_mem_result hall hnode
    obtain ⟨value, hvalue, hparsed⟩ := bind_eq_ok_iff.mp hkey
    obtain ⟨-, rfl⟩ := Json.index_eq_ok_iff.mp hvalue
    obtain ⟨rfl, hpulse⟩ := parseNode_seen hparsed
    exact hpulse
  constructor
  · intro name
    constructor
    · exact fun hfind => ⟨(hkey name).mp ⟨_, hfind⟩, (htype hfind).mp rfl⟩
    · rintro ⟨hmem, hpulse⟩
      obtain ⟨t, hfind⟩ := (hkey name).mpr hmem
      rw [hfind, (htype hfind).mpr hpulse]
  · intro name
    constructor
    · rintro ⟨t, hfind, hne⟩
      exact ⟨(hkey name).mp ⟨_, hfind⟩, fun hpulse => hne ((htype hfind).mpr hpulse)⟩
    · rintro ⟨hmem, hnot⟩
      obtain ⟨t, hfind⟩ := (hkey name).mpr hmem
      exact ⟨t, hfind, fun heq => hnot ((htype hfind).mp heq)⟩

theorem isObject_hasMembers {v : Json} (h : v.isObject = true) : v.hasMembers = true := by
  cases v <;> first | rfl | cases h

include hacc in
theorem outcome_parseValueMap (v : Json) :
    Outcome ParseStop.abort (parseValueMap acc v) (SetReadable v) True := by
  unfold parseValueMap SetReadable
  cases hobject : v.isObject with
  | false => exact (outcome_pure _ trivial).congr (by simp) (fun _ => Iff.rfl)
  | true =>
      have hmembers := isObject_hasMembers hobject
      simp only [Bool.not_true, Bool.false_eq_true, if_false, true_implies]
      have hentries : Outcome ParseStop.abort
          (v.memberNames.mapM fun key => do
            let value ← v.index key
            let text ← convert (acc.asString value)
            return (key, text))
          (UpTo (fun key => (v.member key).Scalar) (fun _ => True) v.memberNames)
          (∀ key ∈ v.memberNames, True) := by
        apply Outcome.mapM
        intro key _
        rw [index_of_members hmembers, ok_bind]
        exact (outcome_convert _ (hacc.asString_isSome _)).bind_of_safe fun text _ =>
          outcome_pure _ trivial
      refine ((outcome_getMemberNames v).bind_of_true fun keys hkeys => ?_).congr
        (and_iff_right hmembers) (fun _ => Iff.rfl)
      obtain ⟨-, rfl⟩ := Json.getMemberNames_eq_ok_iff.mp hkeys
      refine (hentries.congr upTo_true_iff (fun _ => by simp)).bind_of_safe fun entries _ => ?_
      exact outcome_pure _ trivial

/-- The names in a set. -/
theorem parseValueMap_keys {v : Json} {set : ValueMap} (h : parseValueMap acc v = .ok set)
    (P : String → Prop) :
    (∀ e ∈ set.entries, P e.1) ↔ (v.isObject = true → ∀ key ∈ v.memberNames, P key) := by
  unfold parseValueMap at h
  split_ifs at h with hobject
  · cases h
    rw [Bool.not_eq_true'] at hobject
    simp [hobject, OrdMap.empty]
  · rw [Bool.not_eq_true', Bool.not_eq_false] at hobject
    rw [hobject, eq_self_iff_true, true_implies]
    obtain ⟨keys, hkeys, h⟩ := bind_eq_ok_iff.mp h
    obtain ⟨-, rfl⟩ := Json.getMemberNames_eq_ok_iff.mp hkeys
    obtain ⟨entries, hentries, h⟩ := bind_eq_ok_iff.mp h
    cases h
    have hnames : entries.map Prod.fst = v.memberNames := by
      have hall := (mapM_eq_ok_iff.mp hentries).imp (S := fun key e => key = e.1) ?_
      · rw [← List.forall₂_map_right_iff, List.forall₂_eq_eq_eq] at hall
        exact hall.symm
      · intro key e he
        obtain ⟨value, -, he⟩ := bind_eq_ok_iff.mp he
        obtain ⟨text, -, he⟩ := bind_eq_ok_iff.mp he
        cases he
        rfl
    rw [← hnames]
    constructor
    · intro hset key hkey
      obtain ⟨value, hfind⟩ := exists_find?_ofEntries_iff.mpr hkey
      exact hset (key, value) ((OrdMap.find?_eq_some_iff _ _ _).mp hfind)
    · intro hset e he
      have hfind := (OrdMap.find?_eq_some_iff _ e.1 e.2).mpr he
      exact hset e.1 (exists_find?_ofEntries_iff.mp ⟨_, hfind⟩)

theorem outcome_checkSet {nodes : Json} {types : OrdMap String NodeType}
    (htypes : TypesMatch acc nodes types) (set : ValueMap) (place : String) :
    Outcome ParseStop.abort (checkSet types set place) True
      (∀ e ∈ set.entries, IsSettable acc nodes e.1) := by
  have hall : Outcome ParseStop.abort (checkSet types set place)
      (UpTo (fun _ => True) (fun e => IsSettable acc nodes e.1) set.entries)
      (∀ e ∈ set.entries, IsSettable acc nodes e.1) := by
    apply Outcome.mapM
    intro e _
    rw [← htypes.settable]
    split
    · rename_i hfind
      exact outcome_fail _ (by simp [hfind])
    · rename_i hfind
      exact outcome_fail _ (by simp [hfind])
    · rename_i t hnot hfind
      exact outcome_pure _ ⟨t, hfind, hnot⟩
  exact hall.congr (iff_true_intro (upTo_of_forall fun _ _ => trivial)) (fun _ => Iff.rfl)

end Sets

section Parts

variable {acc : JsonAccess} (hacc : acc.Documented) {nodes : Json}
  {types : OrdMap String NodeType} (htypes : TypesMatch acc nodes types)
include hacc

section Requests

include htypes

theorem outcome_parsePulseName (source : String) (p : Json) :
    Outcome ParseStop.abort (parsePulseName acc types source p) p.Scalar
      (NamesPulse acc nodes p) := by
  refine (outcome_convert _ (hacc.asString_isSome p)).bind_of_safe fun name hname => ?_
  replace hname := convert_eq_ok_iff.mp hname
  have hiff : NamesPulse acc nodes p ↔ types.find? name = some .pulse := by
    simp [NamesPulse, hname, htypes.pulse]
  rw [hiff]
  split_ifs with hpulse
  · exact outcome_pure _ hpulse
  · exact outcome_fail _ hpulse

/-- A set and its check. -/
theorem outcome_parseLevel (level : Json) :
    Outcome ParseStop.abort (parseLevel acc types level) (SetReadable level)
      (SetValid acc nodes level) := by
  refine (outcome_parseValueMap hacc level).bind_of_safe fun set hset => ?_
  refine ((outcome_checkSet htypes set _).bind fun _ _ => outcome_pure _ trivial).congr ?_ ?_
  · simp
  · intro _
    rw [and_true]
    exact parseValueMap_keys hset _

theorem outcome_parseRequest (source : String) (r : Json) :
    Outcome ParseStop.abort (parseRequest acc types source r) (RequestReadable acc nodes r)
      (RequestValid acc nodes source r) := by
  by_cases hr : r.hasMembers = true
  · have hpulses : Outcome ParseStop.abort
        ((r.member "Pulse").elements.mapM (parsePulseName acc types source))
        (UpTo Json.Scalar (NamesPulse acc nodes) (r.member "Pulse").elements)
        (∀ p ∈ (r.member "Pulse").elements, NamesPulse acc nodes p) :=
      Outcome.mapM (fun p _ => outcome_parsePulseName hacc htypes source p)
    unfold parseRequest
    simp only [index_of_members hr, ok_bind]
    refine ((outcome_asIntOr hacc hr "HoldMs" 0).bind_of_true fun holdMs _ =>
      (outcome_asIntOr hacc hr "PulseMs" 0).bind_of_true fun pulseMs _ =>
      (outcome_asIntOr hacc hr "PulseMaxMs" 1000).bind_of_true fun pulseMaxMs _ =>
      (outcome_asIntOr hacc hr "FlingMinMs" 0).bind_of_true fun flingMinMs _ =>
      (outcome_asIntOr hacc hr "MaxMs" 0).bind_of_true fun maxMs hmax =>
      (outcome_asBoolOr hacc hr "IgnoreZeroDuration" false).bind_of_true fun ignore _ =>
      hpulses.bind fun pulse _ =>
      (outcome_parseValueMap hacc (r.member "Set")).bind_of_safe fun set hset =>
      (?_ : Outcome _ _ True (SetValid acc nodes (r.member "Set") ∧
        (source = "launch" → ∃ n, acc.asInt (r.memberOr "MaxMs" (.int 0)) = some n ∧
          0 < n)))).congr ?_ ?_
    · have hmaxMs : acc.asInt (r.memberOr "MaxMs" (.int 0)) = some maxMs :=
        get_convert_eq_ok hmax
      simp only [hmaxMs, Option.some.injEq, exists_eq_left']
      refine ((outcome_checkSet htypes set source).bind fun _ _ =>
        (?_ : Outcome _ _ True (source = "launch" → 0 < maxMs))).congr ?_ ?_
      · split_ifs with hlaunch
        · exact outcome_fail _ (fun h => absurd (h hlaunch.1) (not_lt.mpr hlaunch.2))
        · exact outcome_pure _ (fun heq => not_le.mp (fun hle => hlaunch ⟨heq, hle⟩))
      · simp
      · intro _
        rw [parseValueMap_keys hset]
        rfl
    · constructor
      · rintro ⟨hhold, hpulseMs, hpulseMax, hfling, hmax, hignore, hpulse, hset⟩
        refine ⟨hr, ?_, hignore, hpulse, hset⟩
        simp only [List.forall_mem_cons]
        exact ⟨hhold, hpulseMs, hpulseMax, hfling, hmax, nofun⟩
      · intro h
        have htimes := h.times
        simp only [List.forall_mem_cons] at htimes
        obtain ⟨hhold, hpulseMs, hpulseMax, hfling, hmax, -⟩ := htimes
        exact ⟨hhold, hpulseMs, hpulseMax, hfling, hmax, h.ignore, h.pulse, h.set⟩
    · intro _
      constructor
      · exact fun h => ⟨h.1, h.2.1, h.2.2⟩
      · exact fun h => ⟨h.pulse, h.set, h.launch⟩
  · refine ⟨iff_of_false ?_ (fun h => hr h.container), fun h => absurd h.container hr⟩
    rw [parseRequest, asIntOr, avoids_bind_iff, avoids_bind_iff, Json.avoids_get_iff]
    exact fun h => hr h.1.1

theorem outcome_parseSource {requests : Json} (hmembers : requests.hasMembers = true)
    (source : String) :
    Outcome ParseStop.abort (parseSource acc types requests source)
      (source ∈ ["interaction", "fling", "launch"] →
        RequestReadable acc nodes (requests.member source))
      (SourceValid acc nodes requests source) := by
  unfold parseSource SourceValid
  split_ifs with hunknown
  · have hnot : source ∉ ["interaction", "fling", "launch"] := by simpa using hunknown
    refine (outcome_fail _ ?_).congr ?_ (fun _ => Iff.rfl)
    · exact fun h => hnot h.1
    · simp only [hnot, false_implies]
  · have hknown : source ∈ ["interaction", "fling", "launch"] := by
      by_contra hnot
      exact hunknown (by simpa using hnot)
    simp only [hknown, true_implies, true_and, index_of_members hmembers, ok_bind]
    refine ((outcome_parseRequest hacc htypes source _).bind fun _ _ =>
      outcome_pure _ trivial).congr ?_ ?_
    · simp
    · simp

theorem outcome_parseRequests (requests : Json) :
    Outcome ParseStop.abort (parseRequests acc types requests)
      (RequestsReadable acc nodes requests) (RequestsValid acc nodes requests) := by
  refine (outcome_getMemberNames requests).bind_of_true fun sources hsources => ?_
  obtain ⟨hmembers, rfl⟩ := Json.getMemberNames_eq_ok_iff.mp hsources
  have hall := Outcome.mapM (fun source (_ : source ∈ requests.memberNames) =>
    outcome_parseSource hacc htypes hmembers source)
  refine (hall.bind fun _ _ => outcome_pure _ trivial).congr ?_ ?_
  · simp
  · intro _
    rw [and_true]
    rfl

theorem outcome_parseAdpf (lowWaterTest : Rat → Int → Int → Bool) (adpf : Json) :
    Outcome ParseStop.abort (parseAdpf acc lowWaterTest types adpf)
      (adpf.isObject = true → AdpfReadable acc nodes adpf)
      (adpf.isObject = true → AdpfValid acc nodes adpf) := by
  unfold parseAdpf
  cases hobject : adpf.isObject with
  | false =>
      refine (outcome_pure _ ?_).congr ?_ (fun _ => Iff.rfl)
      · exact nofun
      · simp
  | true =>
      have ha := isObject_hasMembers hobject
      have hlevels := Outcome.mapM (fun level (_ : level ∈ (adpf.member "Levels").elements) =>
        outcome_parseLevel hacc htypes level)
      simp only [Bool.not_true, Bool.false_eq_true, if_false, true_implies, get_of_members ha,
        index_of_members ha, ok_bind]
      refine ((outcome_asBoolOr hacc ha "Enabled" false).bind_of_true fun enabled henabled =>
        (outcome_asInt64Or hacc ha "ReportRateMs" 100).bind_of_true fun reportRateMs _ =>
        (outcome_asInt64Or hacc ha "StaleMs" 150).bind_of_true fun staleMs _ =>
        (outcome_convert _ (hacc.asDouble_isSome _)).bind_of_true fun lowWater _ =>
        hlevels.bind fun levels hparsed =>
        (?_ : Outcome _ _ True
          (acc.asBool (adpf.memberOr "Enabled" (.bool false)) = some true →
            (adpf.member "Levels").elements ≠ []))).congr ?_ ?_
      · have hvalue : acc.asBool (adpf.memberOr "Enabled" (.bool false)) = some enabled :=
          get_convert_eq_ok henabled
        have hlength := (mapM_eq_ok_iff.mp hparsed).length_eq
        have hempty : levels = [] ↔ (adpf.member "Levels").elements = [] := by
          rw [← List.length_eq_zero_iff, ← hlength, List.length_eq_zero_iff]
        rw [hvalue, Option.some.injEq]
        split_ifs with hnone
        · exact outcome_fail _ (fun h => h hnone.1 (hempty.mp hnone.2))
        · exact outcome_pure _ (fun h hnil => hnone ⟨h, hempty.mpr hnil⟩)
      · constructor
        · rintro ⟨henabled, hrate, hstale, hlow, hall, -⟩
          refine ⟨henabled, ?_, hlow, hall⟩
          simp only [List.forall_mem_cons]
          exact ⟨hrate, hstale, nofun⟩
        · intro h
          have htimes := h.times
          simp only [List.forall_mem_cons] at htimes
          exact ⟨h.enabled, htimes.1, htimes.2.1, h.lowWater, h.levels, fun _ => trivial⟩
      · intro _
        constructor
        · exact fun h => ⟨h.1, h.2⟩
        · exact fun h => ⟨h.levels, h.enabled⟩

end Requests

theorem outcome_parseNames (v : Json) :
    Outcome ParseStop.abort (parseNames acc v) (NamesReadable v) True := by
  unfold parseNames NamesReadable
  cases harray : v.isArray with
  | false => exact (outcome_pure _ trivial).congr (by simp) (fun _ => Iff.rfl)
  | true =>
      have hall := Outcome.mapM (fun name (_ : name ∈ v.elements) =>
        outcome_convert _ (hacc.asString_isSome name))
      refine hall.congr ?_ ?_
      · rw [upTo_true_iff, eq_self_iff_true, true_implies]
      · simp

theorem outcome_parseSupported {root : Json} (hroot : root.hasMembers = true) (key : String) :
    Outcome ParseStop.abort (parseSupported acc root key)
      ((root.member "Supported").hasMembers = true ∧
        NamesReadable ((root.member "Supported").member key)) True := by
  rw [parseSupported, index_of_members hroot, ok_bind]
  have hindex : Outcome ParseStop.abort ((root.member "Supported").index key)
      ((root.member "Supported").hasMembers = true) True := by
    refine ⟨Json.avoids_index_iff _ key, fun h => iff_true_intro ?_⟩
    exact ⟨_, Json.index_eq_ok_iff.mpr ⟨h, rfl⟩⟩
  refine hindex.bind_of_true fun names hnames => ?_
  obtain ⟨-, rfl⟩ := Json.index_eq_ok_iff.mp hnames
  exact outcome_parseNames hacc _

/-- The whole document. -/
theorem avoids_parseRoot_iff (lowWaterTest : Rat → Int → Int → Bool) {root : Json}
    (hroot : root.isObject = true) :
    Avoids ParseStop.abort (parseRoot acc lowWaterTest root) ↔ ConfigReadable acc root := by
  have hmembers := isObject_hasMembers hroot
  unfold parseRoot
  simp only [hroot, Bool.not_true, Bool.false_eq_true, if_false, index_of_members hmembers,
    ok_bind]
  have houtcome := (outcome_parseNodes hacc (root.member "Nodes")).bind fun nodes hnodes =>
    (outcome_parseRequests hacc (typesMatch_of_parseNodes hnodes)
      (root.member "Requests")).bind fun requests _ =>
    (outcome_parseAdpf hacc (typesMatch_of_parseNodes hnodes) lowWaterTest
      (root.member "Adpf")).bind fun adpf _ =>
    (outcome_parseSupported hacc hmembers "Boosts").bind_of_true fun boosts _ =>
    (outcome_parseSupported hacc hmembers "Modes").bind_of_safe fun modes _ =>
    outcome_pure ({ nodes, requests, adpf, boosts, modes } : Config) trivial
  rw [houtcome.avoids]
  constructor
  · rintro ⟨hnodes, hrest⟩
    refine ⟨hnodes, fun hn => (hrest hn).1, fun hn hr => ((hrest hn).2 hr).1, ?_⟩
    intro hn hr ha
    obtain ⟨hboosts, hmodes⟩ := ((hrest hn).2 hr).2 ha
    exact ⟨hboosts.1, hboosts.2, hmodes.2⟩
  · intro h
    refine ⟨h.nodes, fun hn => ⟨h.requests hn, fun hr => ⟨h.adpf hn hr, fun ha => ?_⟩⟩⟩
    obtain ⟨hs, hboosts, hmodes⟩ := h.supported hn hr ha
    exact ⟨⟨hs, hboosts⟩, hs, hmodes⟩

/-- `ParseConfig` returns, with true or with false, exactly when a document
that jsoncpp makes of the text is readable. -/
theorem parseConfig_returns_iff (lowWaterTest : Rat → Int → Int → Bool)
    (parse : String → Except String Json) (json : String) (out : Config) :
    (∃ result, parseConfig acc lowWaterTest parse json out = some result) ↔
      ∀ root, parse json = .ok root → root.isObject = true → ConfigReadable acc root := by
  unfold parseConfig
  cases hparse : parse json with
  | error errs => simp
  | ok root =>
      simp only [Except.ok.injEq, forall_eq']
      by_cases hroot : root.isObject = true
      · rw [← avoids_parseRoot_iff hacc lowWaterTest hroot]
        simp only [hroot, true_implies]
        cases parseRoot acc lowWaterTest root with
        | ok cfg => simp
        | error stop =>
            cases stop with
            | abort => simp
            | reject error => simp
      · simp [parseRoot, hroot, fail]

end Parts

theorem plainAccess_asInteger_isSome (lo hi : Int) (v : Json) :
    (plainAccess.asInteger lo hi v).isSome ↔ v.Within lo hi := by
  unfold plainAccess.asInteger Json.Within
  cases v with
  | int n => simp
  | real x => simp
  | null => simp [Json.Numeric, Json.Scalar]
  | bool b => simp [Json.Numeric, Json.Scalar]
  | string s => simp [Json.Numeric]
  | array elements => simp [Json.Numeric, Json.Scalar]
  | object members => simp [Json.Numeric, Json.Scalar]

theorem plainAccess_documented : plainAccess.Documented := by
  constructor
  · intro v
    cases v with
    | array elements => exact iff_of_false Bool.false_ne_true id
    | object members => exact iff_of_false Bool.false_ne_true id
    | _ => exact iff_of_true rfl trivial
  · exact plainAccess_asInteger_isSome _ _
  · exact plainAccess_asInteger_isSome _ _
  · intro v
    cases v with
    | string s => exact iff_of_false Bool.false_ne_true id
    | array elements => exact iff_of_false Bool.false_ne_true id
    | object members => exact iff_of_false Bool.false_ne_true id
    | _ => exact iff_of_true rfl trivial
  · intro v
    cases v with
    | string s => exact iff_of_false Bool.false_ne_true id
    | array elements => exact iff_of_false Bool.false_ne_true id
    | object members => exact iff_of_false Bool.false_ne_true id
    | _ => exact iff_of_true rfl trivial
  · intro v hint
    cases v with
    | int n => simpa [plainAccess, Json.Within] using hint
    | real x =>
        simp only [plainAccess, decide_eq_true_eq] at hint
        obtain ⟨hden, hlo, hhi⟩ := hint
        have hx : (x.num : Rat) = x := Rat.coe_int_num_of_den_eq_one hden
        rw [Json.Within, ← hx]
        exact ⟨by exact_mod_cast hlo, by exact_mod_cast hhi⟩
    | null => cases hint
    | bool b => cases hint
    | string s => cases hint
    | array elements => cases hint
    | object members => cases hint

theorem parseConfig_returns_interaction :
    ∃ result, parseConfig plainAccess (fun _ _ _ => false) (fun _ => .ok interactionDocument)
        "" { adpf := defaultAdpf (fun _ _ _ => false) } = some result ∧
      ConfigReadable plainAccess interactionDocument := by
  refine ⟨_, rfl, ?_⟩
  apply (parseConfig_returns_iff plainAccess_documented (fun _ _ _ => false)
    (fun _ => .ok interactionDocument) "" { adpf := defaultAdpf (fun _ _ _ => false) }).mp
  · exact ⟨_, rfl⟩
  · rfl
  · rfl

/-- A number where the nodes should be takes the service down. -/
theorem parseConfig_aborts_on_number :
    plainAccess.Documented ∧
      ¬ ∃ result, parseConfig plainAccess (fun _ _ _ => false)
        (fun _ => .ok (.object [("Nodes", .int 5)])) "\x7b\"Nodes\": 5\x7d"
        { adpf := defaultAdpf (fun _ _ _ => false) } = some result := by
  refine ⟨plainAccess_documented, ?_⟩
  rintro ⟨result, h⟩
  cases h

end MeizuM5c.Power
