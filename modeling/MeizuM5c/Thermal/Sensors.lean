import MeizuM5c.Lib.DistinctKeys
import MeizuM5c.Lib.Edges
import MeizuM5c.Lib.Transition

/-!
The sensors of the Thermal HAL and what one pass of `pollLoop` does to them under
`sensors_mutex_`. Temperatures are of any type, with the reading of millidegrees and the
comparison as parameters, since the code computes them in `float`; `readFileToString`
threads the state of the file system, so that every read may answer differently.
-/

namespace MeizuM5c.Thermal

open Lib

inductive ThrottlingSeverity where
  | none
  | light
  | moderate
  | severe
  | critical
  | emergency
  | shutdown
  deriving DecidableEq, Repr

/-- `static_cast<ThrottlingSeverity>(i)` of an index of `hot`. -/
def ThrottlingSeverity.ofIndex : Nat → ThrottlingSeverity
  | 0 => .none
  | 1 => .light
  | 2 => .moderate
  | 3 => .severe
  | 4 => .critical
  | 5 => .emergency
  | _ => .shutdown

/-- The types of the sensors, and every other value that a client may pass. -/
inductive TemperatureType where
  | cpu
  | battery
  | skin
  | other (code : Int)
  deriving DecidableEq, Repr

/-- The functions of the base library, the arithmetic of `float` and the file system. -/
structure Platform (σ T : Type) where
  readFileToString : String → σ → Option String × σ
  trim : String → String
  /-- `ParseInt` into an `int`. -/
  parseInt : String → Option Int
  /-- `milli / 1000.0f`. -/
  celsius : Int → T
  /-- A threshold in whole degrees. -/
  degrees : Nat → T
  /-- `a >= b`. -/
  ge : T → T → Bool

/-- One thermal zone. A threshold that is `NAN` is `none`. -/
structure Sensor (T : Type) where
  zoneType : String
  name : String
  type : TemperatureType
  hot : List (Option T)
  tempPath : String := ""
  lastSeverity : ThrottlingSeverity := .none

/-- `Temperature_2_0`. -/
structure Temperature (T : Type) where
  type : TemperatureType
  name : String
  value : T
  throttlingStatus : ThrottlingSeverity
  deriving DecidableEq

def kSeverities : Nat := 7

section Code

variable {σ T : Type} (P : Platform σ T)

def kSensors : List (Sensor T) :=
  [ { zoneType := "mtktscpu"
      name := "cpu"
      type := .cpu
      hot := [none, none, none, some (P.degrees 85), some (P.degrees 100), none, none] },
    { zoneType := "mtktsbattery"
      name := "battery"
      type := .battery
      hot := [none, none, none, none, none, some (P.degrees 60), none] },
    { zoneType := "mtktsAP"
      name := "skin"
      type := .skin
      hot := [none, none, some (P.degrees 45), none, none, some (P.degrees 95), none] } ]

/-- The loop of `severityOf`, which counts down to 1. -/
def severityFrom (hot : List (Option T)) (celsius : T) : Nat → ThrottlingSeverity
  | 0 => .none
  | i + 1 =>
      match hot.getD (i + 1) none with
      | some threshold =>
          if P.ge celsius threshold then .ofIndex (i + 1) else severityFrom hot celsius i
      | none => severityFrom hot celsius i

def severityOf (sensor : Sensor T) (celsius : T) : ThrottlingSeverity :=
  severityFrom P sensor.hot celsius (kSeverities - 1)

def zoneDir (zone : Nat) : String := "/sys/class/thermal/thermal_zone" ++ toString zone ++ "/"

/-- One zone of `resolveZones`: its sensors that have no path yet get it. -/
def resolveZone (zone : Nat) (sensors : List (Sensor T)) (w : σ) : List (Sensor T) × σ :=
  match P.readFileToString (zoneDir zone ++ "type") w with
  | (none, w) => (sensors, w)
  | (some text, w) =>
      (sensors.map (fun sensor =>
        if sensor.tempPath = "" ∧ P.trim text = sensor.zoneType then
          { sensor with tempPath := zoneDir zone ++ "temp" }
        else sensor), w)

def resolveZones (sensors : List (Sensor T)) (w : σ) : List (Sensor T) × σ :=
  (List.range 32).foldl (fun s zone => resolveZone P zone s.1 s.2) (sensors, w)

def readSensor (sensor : Sensor T) (w : σ) : Option T × σ :=
  if sensor.tempPath = "" then (none, w)
  else
    match P.readFileToString sensor.tempPath w with
    | (none, w) => (none, w)
    | (some text, w) =>
        match P.parseInt (P.trim text) with
        | none => (none, w)
        | some milli =>
            if milli < -40000 ∨ milli > 200000 then (none, w) else (some (P.celsius milli), w)

/-- What the framework is told of a sensor. -/
def temperature (sensor : Sensor T) (celsius : T) : Temperature T :=
  ⟨sensor.type, sensor.name, celsius, severityOf P sensor celsius⟩

/-- One sensor of a poll: the sensor afterwards, and the change if there is one. -/
def pollSensor (sensor : Sensor T) (w : σ) : (Sensor T × Option (Temperature T)) × σ :=
  match readSensor P sensor w with
  | (none, w) => ((sensor, none), w)
  | (some celsius, w) =>
      let severity := severityOf P sensor celsius
      if severity ≠ sensor.lastSeverity then
        (({ sensor with lastSeverity := severity }, some (temperature P sensor celsius)), w)
      else ((sensor, none), w)

/-- Zones are looked for again while one is missing. -/
def resolveMissing (sensors : List (Sensor T)) (w : σ) : List (Sensor T) × σ :=
  if sensors.any (fun sensor => sensor.tempPath = "") then resolveZones P sensors w
  else (sensors, w)

/-- The sensors, and `changed`, after the section of `pollLoop` under `sensors_mutex_`. -/
def pollSensors (sensors : List (Sensor T)) (w : σ) :
    (List (Sensor T) × List (Temperature T)) × σ :=
  let (sensors, w) := resolveMissing P sensors w
  let (results, w) := threadMap (pollSensor P) sensors w
  ((results.map Prod.fst, results.filterMap Prod.snd), w)

end Code

/-- A valid reading of the sensor of that name. -/
structure Reading (T : Type) where
  name : String
  celsius : T

section Law

variable {σ T : Type} (P : Platform σ T)

/-- The valid readings of one section of `pollLoop`. -/
def pollReadings (sensors : List (Sensor T)) (w : σ) : List (Reading T) :=
  (visits (pollSensor P) (resolveMissing P sensors w).1 (resolveMissing P sensors w).2).filterMap
    (fun v => (readSensor P v.1 v.2).1.map (Reading.mk v.1.name))

def readingsOf (readings : List (Reading T)) (name : String) : List T :=
  readings.filterMap (fun r => if r.name = name then some r.celsius else none)

/-- Every sensor stands at the severity of its last valid reading, and those of its
readings were notified, in order, whose severity differs from the one in front. -/
structure SensorLaw (sensors : List (Sensor T)) (readings : List (Reading T))
    (notifications : List (Temperature T)) : Prop where
  distinct : (sensors.map Sensor.name).Nodup
  lastSeverity : ∀ sensor ∈ sensors, sensor.lastSeverity =
    lastKey (severityOf P sensor) .none (readingsOf readings sensor.name)
  notified : ∀ sensor ∈ sensors, notifications.filter (fun t => t.name = sensor.name) =
    (edges (severityOf P sensor) .none (readingsOf readings sensor.name)).map
      (temperature P sensor)
  owned : ∀ t ∈ notifications, t.name ∈ sensors.map Sensor.name

end Law

section Zones

variable {σ T : Type} {P : Platform σ T}

/-- The same sensors, with other paths. -/
def Relocated (sensors sensors' : List (Sensor T)) : Prop :=
  List.Forall₂ (fun sensor sensor' => ∃ path, sensor' = { sensor with tempPath := path })
    sensors sensors'

theorem Relocated.refl (sensors : List (Sensor T)) : Relocated sensors sensors := by
  induction sensors with
  | nil => exact .nil
  | cons sensor sensors ih => exact .cons ⟨sensor.tempPath, rfl⟩ ih

theorem Relocated.trans {a b c : List (Sensor T)} (hab : Relocated a b) (hbc : Relocated b c) :
    Relocated a c := by
  induction hab generalizing c with
  | nil => exact hbc
  | cons hhead _ ih =>
      cases hbc with
      | cons hnext htail =>
          obtain ⟨_, rfl⟩ := hhead
          obtain ⟨path, rfl⟩ := hnext
          exact .cons ⟨path, rfl⟩ (ih htail)

theorem Relocated.names {sensors sensors' : List (Sensor T)} (h : Relocated sensors sensors') :
    sensors'.map Sensor.name = sensors.map Sensor.name := by
  induction h with
  | nil => rfl
  | cons hhead _ ih =>
      obtain ⟨_, rfl⟩ := hhead
      rw [List.map_cons, List.map_cons, ih]

theorem Relocated.origin {sensors sensors' : List (Sensor T)} (h : Relocated sensors sensors')
    {sensor' : Sensor T} (hmem : sensor' ∈ sensors') :
    ∃ sensor ∈ sensors, ∃ path, sensor' = { sensor with tempPath := path } := by
  induction h with
  | nil => cases hmem
  | cons hhead _ ih =>
      rcases List.mem_cons.mp hmem with rfl | hrest
      · exact ⟨_, List.mem_cons_self, hhead⟩
      · obtain ⟨sensor, hsensor, hpath⟩ := ih hrest
        exact ⟨sensor, List.mem_cons_of_mem _ hsensor, hpath⟩

theorem resolveZone_relocated (zone : Nat) (sensors : List (Sensor T)) (w : σ) :
    Relocated sensors (resolveZone P zone sensors w).1 := by
  unfold resolveZone
  rcases P.readFileToString (zoneDir zone ++ "type") w with ⟨content, w'⟩
  cases content with
  | none => exact .refl sensors
  | some text =>
      apply List.forall₂_map_right_iff.mpr
      apply List.forall₂_same.mpr
      intro sensor _
      split_ifs
      · exact ⟨_, rfl⟩
      · exact ⟨sensor.tempPath, rfl⟩

theorem resolveZones_relocated (sensors : List (Sensor T)) (w : σ) :
    Relocated sensors (resolveZones P sensors w).1 := by
  unfold resolveZones
  generalize List.range 32 = zones
  induction zones generalizing sensors w with
  | nil => exact .refl sensors
  | cons zone zones ih => exact (resolveZone_relocated zone sensors w).trans (ih _ _)

theorem resolveMissing_relocated (sensors : List (Sensor T)) (w : σ) :
    Relocated sensors (resolveMissing P sensors w).1 := by
  unfold resolveMissing
  split_ifs
  · exact resolveZones_relocated sensors w
  · exact .refl sensors

/-- The law does not speak of paths. -/
theorem SensorLaw.relocated {sensors sensors' : List (Sensor T)} {readings : List (Reading T)}
    {notifications : List (Temperature T)} (hlaw : SensorLaw P sensors readings notifications)
    (h : Relocated sensors sensors') : SensorLaw P sensors' readings notifications := by
  constructor
  · rw [h.names]
    exact hlaw.distinct
  · intro sensor' hmem
    obtain ⟨sensor, hsensor, path, rfl⟩ := h.origin hmem
    exact hlaw.lastSeverity sensor hsensor
  · intro sensor' hmem
    obtain ⟨sensor, hsensor, path, rfl⟩ := h.origin hmem
    exact hlaw.notified sensor hsensor
  · rw [h.names]
    exact hlaw.owned

end Zones

section Poll

variable {σ T : Type} {P : Platform σ T}

/-- An invalid reading changes nothing; a valid one sets the severity, and is a change
when it differs. -/
theorem pollSensor_cases (sensor : Sensor T) (w : σ) :
    ((readSensor P sensor w).1 = none ∧ (pollSensor P sensor w).1 = (sensor, none)) ∨
    ∃ celsius, (readSensor P sensor w).1 = some celsius ∧
      (pollSensor P sensor w).1 =
        ({ sensor with lastSeverity := severityOf P sensor celsius },
          if severityOf P sensor celsius = sensor.lastSeverity then none
          else some (temperature P sensor celsius)) := by
  unfold pollSensor
  rcases readSensor P sensor w with ⟨reading, w'⟩
  cases reading with
  | none => exact .inl ⟨rfl, rfl⟩
  | some celsius =>
      right
      refine ⟨celsius, rfl, ?_⟩
      by_cases hsame : severityOf P sensor celsius = sensor.lastSeverity
      · simp only [hsame, ne_eq, not_true_eq_false, if_true, if_false]
      · simp only [hsame, ne_eq, not_false_eq_true, if_true, if_false]

theorem pollSensor_name (sensor : Sensor T) (w : σ) :
    (pollSensor P sensor w).1.1.name = sensor.name := by
  rcases pollSensor_cases sensor w with ⟨-, h⟩ | ⟨celsius, -, h⟩
  · rw [h]
  · rw [h]

theorem pollSensor_change_name {sensor : Sensor T} {w : σ} {t : Temperature T}
    (ht : (pollSensor P sensor w).1.2 = some t) : t.name = sensor.name := by
  rcases pollSensor_cases sensor w with ⟨-, h⟩ | ⟨celsius, -, h⟩
  · rw [h] at ht
    cases ht
  · rw [h] at ht
    split_ifs at ht
    cases ht
    rfl

theorem pollSensors_eq (sensors : List (Sensor T)) (w : σ) :
    (pollSensors P sensors w).1 =
      let vs := visits (pollSensor P) (resolveMissing P sensors w).1 (resolveMissing P sensors w).2
      (vs.map (fun v => (pollSensor P v.1 v.2).1.1),
        vs.filterMap (fun v => (pollSensor P v.1 v.2).1.2)) := by
  unfold pollSensors
  rcases resolveMissing P sensors w with ⟨sensors', w'⟩
  simp only [threadMap_fst, List.map_map, List.filterMap_map]
  rfl

theorem readingsOf_append (readings more : List (Reading T)) (name : String) :
    readingsOf (readings ++ more) name = readingsOf readings name ++ readingsOf more name :=
  List.filterMap_append

section Visited

variable {sensors : List (Sensor T)} {w : σ} {v : Sensor T × σ}

/-- The visits of sensors with distinct names have distinct names. -/
theorem visits_distinct (hdistinct : (sensors.map Sensor.name).Nodup) :
    ((visits (pollSensor P) sensors w).map (fun v => v.1.name)).Nodup := by
  have hsensors := visits_map_fst (pollSensor P) sensors w
  rw [← hsensors, List.map_map] at hdistinct
  exact hdistinct

/-- Of the readings of a poll one sensor sees its own. -/
theorem readingsOf_visits (hdistinct : (sensors.map Sensor.name).Nodup)
    (hv : v ∈ visits (pollSensor P) sensors w) :
    readingsOf ((visits (pollSensor P) sensors w).filterMap
        (fun v => (readSensor P v.1 v.2).1.map (Reading.mk v.1.name))) v.1.name =
      (readSensor P v.1 v.2).1.toList := by
  rw [readingsOf, List.filterMap_filterMap, filterMap_of_nodup (visits_distinct hdistinct) hv]
  · cases (readSensor P v.1 v.2).1 with
    | none => rfl
    | some celsius => simp
  · intro u hu
    cases (readSensor P u.1 u.2).1 with
    | none => rfl
    | some celsius => simpa using hu

/-- Of the changes of a poll those of one sensor are its own. -/
theorem changes_visits (hdistinct : (sensors.map Sensor.name).Nodup)
    (hv : v ∈ visits (pollSensor P) sensors w) :
    ((visits (pollSensor P) sensors w).filterMap (fun v => (pollSensor P v.1 v.2).1.2)).filter
        (fun t => t.name = v.1.name) = (pollSensor P v.1 v.2).1.2.toList := by
  rw [List.filter_filterMap, filterMap_of_nodup (visits_distinct hdistinct) hv]
  · cases hchange : (pollSensor P v.1 v.2).1.2 with
    | none => rfl
    | some t => simp [pollSensor_change_name hchange]
  · intro u hu
    cases hchange : (pollSensor P u.1 u.2).1.2 with
    | none => rfl
    | some t => simpa [pollSensor_change_name hchange] using hu

end Visited

/-- One section of `pollLoop` keeps the law. -/
theorem SensorLaw.poll {sensors : List (Sensor T)} {readings : List (Reading T)}
    {notifications : List (Temperature T)} (hlaw : SensorLaw P sensors readings notifications)
    (w : σ) :
    SensorLaw P (pollSensors P sensors w).1.1 (readings ++ pollReadings P sensors w)
      (notifications ++ (pollSensors P sensors w).1.2) := by
  have hmoved : SensorLaw P (resolveMissing P sensors w).1 readings notifications :=
    hlaw.relocated (resolveMissing_relocated sensors w)
  rw [pollSensors_eq, pollReadings]
  generalize resolveMissing P sensors w = resolved at hmoved ⊢
  obtain ⟨sensors', w'⟩ := resolved
  have hfst := visits_map_fst (pollSensor P) sensors' w'
  have hnames : ((visits (pollSensor P) sensors' w').map
      (fun v => (pollSensor P v.1 v.2).1.1)).map Sensor.name = sensors'.map Sensor.name := by
    have hsensors := congrArg (List.map Sensor.name) hfst
    rw [← hsensors, List.map_map, List.map_map]
    apply List.map_congr_left
    intro v _
    exact pollSensor_name v.1 v.2
  have hone : ∀ v ∈ visits (pollSensor P) sensors' w', v.1 ∈ sensors' := by
    intro v hv
    rw [← hfst]
    exact List.mem_map_of_mem hv
  constructor
  · rw [hnames]
    exact hmoved.distinct
  · intro sensor hmem
    obtain ⟨v, hv, rfl⟩ := List.mem_map.mp hmem
    have hbefore := hmoved.lastSeverity v.1 (hone v hv)
    simp only [pollSensor_name]
    rw [readingsOf_append, readingsOf_visits hmoved.distinct hv]
    rcases pollSensor_cases v.1 v.2 with ⟨hread, h⟩ | ⟨celsius, hread, h⟩
    · rw [h, hread, Option.toList_none, List.append_nil]
      exact hbefore
    · rw [h, hread, Option.toList_some, lastKey_concat]
      rfl
  · intro sensor hmem
    obtain ⟨v, hv, rfl⟩ := List.mem_map.mp hmem
    have hbefore := hmoved.notified v.1 (hone v hv)
    simp only [pollSensor_name]
    rw [List.filter_append, hbefore, changes_visits hmoved.distinct hv, readingsOf_append,
      readingsOf_visits hmoved.distinct hv]
    rcases pollSensor_cases v.1 v.2 with ⟨hread, h⟩ | ⟨celsius, hread, h⟩
    · rw [h, hread, Option.toList_none, Option.toList_none, List.append_nil, List.append_nil]
    · have hlast := hmoved.lastSeverity v.1 (hone v hv)
      have hkey : severityOf P { v.1 with lastSeverity := severityOf P v.1 celsius } =
          severityOf P v.1 := rfl
      have htemp : temperature P { v.1 with lastSeverity := severityOf P v.1 celsius } =
          temperature P v.1 := rfl
      rw [h, hread, hkey, htemp, Option.toList_some, edges_concat, List.map_append, ← hlast]
      split_ifs
      · rfl
      · rfl
  · intro t ht
    rw [hnames]
    rcases List.mem_append.mp ht with hold | hnew
    · exact hmoved.owned t hold
    · obtain ⟨v, hv, hchange⟩ := List.mem_filterMap.mp hnew
      rw [pollSensor_change_name hchange]
      exact List.mem_map_of_mem (hone v hv)

/-- The law of a new HAL. -/
theorem sensorLaw_kSensors (w : σ) : SensorLaw P (resolveZones P (kSensors P) w).1 [] [] := by
  have hstart : SensorLaw P (kSensors P) [] [] := by
    constructor
    · have hnames : (kSensors P).map Sensor.name = ["cpu", "battery", "skin"] := rfl
      rw [hnames]
      decide
    · intro sensor hsensor
      simp only [kSensors, List.mem_cons, List.not_mem_nil, or_false] at hsensor
      rcases hsensor with rfl | rfl | rfl
      · rfl
      · rfl
      · rfl
    · intro sensor _
      rfl
    · intro t ht
      cases ht
  exact hstart.relocated (resolveZones_relocated _ w)

end Poll

end MeizuM5c.Thermal
