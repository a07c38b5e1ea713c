import CommandLine.Attempt

/-! What the wrappers of an argument make of its reading. -/

set_option autoImplicit false

namespace CommandLine.Reading

def kept (reading : Reading) (mode : Mode) (name : String) : Reading :=
  match mode, reading.outcome with
  | .storing, .ok (some value) => { reading with context := reading.context.put name value }
  | _, _ => reading

@[simp] theorem kept_viewing (reading : Reading) (name : String) :
    reading.kept .viewing name = reading := rfl

@[simp] theorem outcome_kept (reading : Reading) (mode : Mode) (name : String) :
    (reading.kept mode name).outcome = reading.outcome := by
  unfold kept
  split <;> rfl

@[simp] theorem cursor_kept (reading : Reading) (mode : Mode) (name : String) :
    (reading.kept mode name).cursor = reading.cursor := by
  unfold kept
  split <;> rfl

def wrapped (reading : Reading) (name : String) : Reading :=
  match reading.outcome with
  | .error (.deferred signal) =>
    { reading with outcome := .error (.deferred (.wrapped name signal)) }
  | _ => reading

/-- An error becomes absence at `start`; a deferral stays, as its resolution may give a value. -/
def orAbsent (reading : Reading) (name : String) (start : Cursor) : Reading :=
  match reading.outcome with
  | .ok _ => reading
  | .error (.deferred signal) =>
    { reading with outcome := .error (.deferred (.wrapped name signal)) }
  | .error (.error cause) =>
    { reading with
      outcome := .ok none
      cursor := start
      events := reading.events ++ [.absent name cause] }

/-- The mapping may refuse the value but not put it off. -/
def mapped (reading : Reading) (name : String)
    (mapping : Value → Except ArgumentError Value) : Reading :=
  match reading.outcome with
  | .ok none => reading
  | .ok (some value) =>
    match mapping value with
    | .error cause => { reading with outcome := .error (.error cause) }
    | .ok image => { reading with outcome := .ok (some image) }
  | .error (.error _) => reading
  | .error (.deferred signal) =>
    { reading with outcome := .error (.deferred (.wrapped name signal)) }

def postponed (reading : Reading) (name : String) : Reading :=
  match reading.outcome with
  | .ok _ => reading
  | .error (.error cause) => { reading with outcome := .error (.deferred (.raised name cause)) }
  | .error (.deferred signal) =>
    { reading with outcome := .error (.deferred (.wrapped name signal)) }

end CommandLine.Reading
