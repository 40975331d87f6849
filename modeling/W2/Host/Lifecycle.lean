import Mathlib.Tactic.Common

/-!
# Opening and closing the port

`SerialPort` of the Mac program keeps what it knows of its port in three places: the pointer
`port`, the reader thread, and the stopped flag of `io_service`. `open_port` looks at the pointer
alone, and nothing sets it back.
-/

namespace W2.Lifecycle

inductive Call
  | openPort (opens : Bool)
  | closePort
  deriving DecidableEq, Repr

/-- `port` is `none` for the null pointer, else it says whether the port it points to is open. -/
structure SerialPort where
  port : Option Bool
  joinable : Bool
  stopped : Bool
  deriving DecidableEq, Repr

inductive Answer
  | returned (value : Bool)
  | threw
  deriving DecidableEq, Repr

namespace SerialPort

def initial : SerialPort := ⟨none, false, false⟩

/-- Nothing has started a thread while the pointer is null, so the one that is swapped out of
`thread_` is not running. -/
def openPort (s : SerialPort) (opens : Bool) : Answer × SerialPort :=
  match s.port with
  | some _ => (.returned false, s)
  | none =>
    if opens then (.returned true, { s with port := some true, joinable := true })
    else (.returned false, { s with port := some false })

/-- Cancelling and closing a port that is open succeeds. With a port that is not open `cancel` may
throw, which is a parameter. -/
def closePort (cancelThrows : Bool) (s : SerialPort) : Answer × SerialPort :=
  if s.port = some false ∧ cancelThrows then (.threw, s)
  else (.returned true, { port := s.port.map fun _ => false, joinable := false, stopped := true })

def call (cancelThrows : Bool) (s : SerialPort) : Call → Answer × SerialPort
  | .openPort opens => s.openPort opens
  | .closePort => s.closePort cancelThrows

def calls (cancelThrows : Bool) (s : SerialPort) (cs : List Call) : SerialPort :=
  cs.foldl (fun s c => (s.call cancelThrows c).2) s

/-- The port is open, and its reader runs: `run` of a stopped `io_service` returns at once. -/
def IsOpen (s : SerialPort) : Prop := s.port = some true ∧ s.joinable = true ∧ s.stopped = false

end SerialPort

def OpensProperly (s : SerialPort) (opens : Bool) : Prop :=
  ((s.openPort opens).1 = .returned true ↔ opens = true) ∧
    if opens then (s.openPort opens).2.IsOpen else (s.openPort opens).2 = s

def Reopens (cancelThrows : Bool) (s : SerialPort) (cs : List Call) : Prop :=
  ∀ before opens rest, cs = before ++ .openPort opens :: rest →
    (s.calls cancelThrows before).port ≠ some true →
      OpensProperly (s.calls cancelThrows before) opens

def StaysClosed : Bool → List Call → Prop
  | _, [] => True
  | _, .closePort :: cs => StaysClosed false cs
  | isOpen, .openPort opens :: cs => (isOpen = true ∨ opens = false) ∧ StaysClosed isOpen cs

def OpensOnce : List Call → Prop
  | .openPort opens :: cs => opens = true ∧ StaysClosed true cs
  | cs => ∀ c ∈ cs, c = .closePort

variable {cancelThrows : Bool} {s : SerialPort} {cs : List Call}

theorem reopens_nil : Reopens cancelThrows s [] := by
  intro before opens rest h
  simp at h

theorem reopens_open {opens : Bool} :
    Reopens cancelThrows s (.openPort opens :: cs) ↔
      (s.port ≠ some true → OpensProperly s opens) ∧
        Reopens cancelThrows (s.openPort opens).2 cs := by
  constructor
  · intro h
    exact ⟨h [] opens cs rfl, fun before o rest hcs =>
      h (.openPort opens :: before) o rest (by rw [hcs, List.cons_append])⟩
  · rintro ⟨hfirst, hrest⟩ before o rest hcs
    cases before with
    | nil =>
      obtain ⟨rfl, rfl⟩ : opens = o ∧ cs = rest := by simpa using hcs
      exact hfirst
    | cons c before =>
      obtain ⟨rfl, rfl⟩ : .openPort opens = c ∧ cs = before ++ .openPort o :: rest := by
        simpa using hcs
      exact hrest before o rest rfl

theorem reopens_close :
    Reopens cancelThrows s (.closePort :: cs) ↔
      Reopens cancelThrows (s.closePort cancelThrows).2 cs := by
  constructor
  · intro h before o rest hcs
    exact h (.closePort :: before) o rest (by rw [hcs, List.cons_append])
  · intro hrest before o rest hcs
    cases before with
    | nil => simp at hcs
    | cons c before =>
      obtain ⟨rfl, rfl⟩ : .closePort = c ∧ cs = before ++ .openPort o :: rest := by
        simpa using hcs
      exact hrest before o rest rfl

theorem closePort_port {isOpen : Bool} (h : s.port = some isOpen) :
    (s.closePort cancelThrows).2.port = some false := by
  unfold SerialPort.closePort
  split
  next hthrow => exact hthrow.1
  next => simp [h]

/-- Once there is a port, `open_port` refuses: it is proper as long as it would fail anyway. The
induction is on the calls, with the state in which they find the port. -/
theorem reopens_kept {isOpen : Bool} (h : s.port = some isOpen) :
    Reopens cancelThrows s cs ↔ StaysClosed isOpen cs := by
  induction cs generalizing s isOpen with
  | nil => exact iff_of_true reopens_nil trivial
  | cons c cs ih =>
    cases c with
    | closePort => rw [reopens_close, ih (closePort_port h), StaysClosed]
    | openPort opens =>
      have hrefused : s.openPort opens = (.returned false, s) := by simp [SerialPort.openPort, h]
      have hproper : (s.port ≠ some true → OpensProperly s opens) ↔
          (isOpen = true ∨ opens = false) := by
        rw [OpensProperly, hrefused, h]
        cases isOpen <;> cases opens <;> simp
      rw [reopens_open, hproper, hrefused, ih h, StaysClosed]

theorem reopens_stopped (hport : s.port = none) (hstopped : s.stopped = true) :
    Reopens cancelThrows s cs ↔ ∀ c ∈ cs, c = .closePort := by
  induction cs generalizing s with
  | nil => exact iff_of_true reopens_nil (by simp)
  | cons c cs ih =>
    cases c with
    | closePort =>
      have hclosed : (s.closePort cancelThrows).2.port = none ∧
          (s.closePort cancelThrows).2.stopped = true := by
        simp [SerialPort.closePort, hport]
      rw [reopens_close, ih hclosed.1 hclosed.2]
      simp
    | openPort opens =>
      have himproper : ¬ OpensProperly s opens := by
        rintro ⟨-, hstate⟩
        cases opens with
        | true => simp [SerialPort.openPort, SerialPort.IsOpen, hport, hstopped] at hstate
        | false =>
          have hpointer := congrArg SerialPort.port hstate
          simp [SerialPort.openPort, hport] at hpointer
      rw [reopens_open]
      refine iff_of_false (fun h => himproper (h.1 (by simp [hport]))) fun h => ?_
      simpa using h (.openPort opens) (by simp)

/-- The port can be reopened in exactly the runs that open it once. -/
theorem port_reopens (cancelThrows : Bool) (cs : List Call) :
    Reopens cancelThrows SerialPort.initial cs ↔ OpensOnce cs := by
  cases cs with
  | nil => exact iff_of_true reopens_nil (by simp [OpensOnce])
  | cons c cs =>
    cases c with
    | closePort =>
      rw [reopens_close, reopens_stopped (by rfl) (by rfl)]
      simp [OpensOnce]
    | openPort opens =>
      have hproper : OpensProperly SerialPort.initial opens ↔ opens = true := by
        cases opens <;> simp [OpensProperly, SerialPort.openPort, SerialPort.initial,
          SerialPort.IsOpen]
      have hopened : (SerialPort.initial.openPort opens).2.port = some opens := by
        cases opens <;> rfl
      rw [reopens_open, reopens_kept hopened, OpensOnce]
      constructor
      · rintro ⟨hfirst, hrest⟩
        obtain rfl := hproper.mp (hfirst (by simp [SerialPort.initial]))
        exact ⟨rfl, hrest⟩
      · rintro ⟨rfl, hrest⟩
        exact ⟨fun _ => hproper.mpr rfl, hrest⟩

theorem port_reopens_again :
    ¬ Reopens true SerialPort.initial [.openPort true, .closePort, .openPort true] := by
  intro h
  have hproper := h [.openPort true, .closePort] true [] rfl (by decide)
  exact absurd (hproper.1.mpr rfl) (by decide)

end W2.Lifecycle
