/-
  Request schemas against column types: what the six create bodies let through, and what
  the tables their rows go into can hold.

  `fits` of a row goes through every column of its table that a value of its type can
  still miss: varchar lengths in characters, Integer as 32 bits, text without NUL, a
  datetime the driver can turn into UTC. NOT NULL and the enumerations are in the types.

  `row_fits_iff`: for an accepted body the row fits exactly when no text of it holds a NUL,
  the headcount stays within 32 bits and the event date within the years 1 to 9999 in UTC;
  the lengths always agree. `large_headcount_breaks` is an accepted body whose row does not.
-/
import LinkedOut.Api

namespace LinkedOut

/-! ## The tables -/

def sourceUrlMaxLen : Nat := 1000

def Review.fits (r : Review) : Bool :=
  varchar departmentMaxLen r.department && storable r.prose && nullable storable r.flaggedReason

def Corroboration.fits (c : Corroboration) : Bool :=
  nullable (varchar corroborationCommentMaxLen) c.comment

def EmployerResponse.fits (r : EmployerResponse) : Bool :=
  varchar responseTextMaxLen r.responseText

def LayoffEvent.fits (e : LayoffEvent) : Bool :=
  utcDatetime e.eventDate && nullable (varchar departmentMaxLen) e.department &&
    nullable int32 e.estimatedHeadcount && nullable (varchar sourceUrlMaxLen) e.sourceUrl &&
    nullable storable e.flaggedReason

def TakedownLogEntry.fits (e : TakedownLogEntry) : Bool :=
  nullable (varchar requesterDetailMaxLen) e.requesterDetail && varchar reasonMaxLen e.reason

def GrievanceComplaint.fits (c : GrievanceComplaint) : Bool :=
  varchar contactMaxLen c.complainantContact && varchar subjectMaxLen c.subject &&
    storable c.description

/-! ## The bodies -/

/-- The bodies of the six create endpoints. -/
inductive CreateBody where
  | review (body : ReviewCreate)
  | corroboration (comment : Option String)
  | employerResponse (responseText : String)
  | layoffEvent (body : LayoffEventCreate)
  | takedownLogEntry (body : TakedownLogEntryCreate)
  | grievance (body : GrievanceComplaintCreate)

namespace CreateBody

/-- The schema's checks, as the handlers make them. -/
def check : CreateBody → Except HttpException Unit
  | review body => body.check
  | corroboration comment => checkComment comment
  | employerResponse responseText =>
    validate [("body.response_text", lengthIn 1 responseTextMaxLen responseText)]
  | layoffEvent body => body.check
  | takedownLogEntry body => body.check
  | grievance body => body.check

/-- The row the handler builds fits its table; `callerId` is the user or the employer account,
    `reviewId` the review that is corroborated or answered. -/
def rowFits (p : Platform) (env : Env) (callerId reviewId : Uuid) : CreateBody → Bool
  | review body => (newReview p env callerId body).fits
  | corroboration comment => (newCorroboration env reviewId callerId comment).fits
  | employerResponse responseText => (newResponse env reviewId callerId responseText).fits
  | layoffEvent body => (newLayoffEvent p env callerId body).fits
  | takedownLogEntry body => (newTakedownLogEntry env body).fits
  | grievance body => (newComplaint env body).fits

/-- The INSERT of that row takes its values. -/
def rowAdmitted (p : Platform) (env : Env) (callerId reviewId : Uuid) : CreateBody → Bool
  | review body => admits (newReview p env callerId body)
  | corroboration comment => admits (newCorroboration env reviewId callerId comment)
  | employerResponse responseText => admits (newResponse env reviewId callerId responseText)
  | layoffEvent body => admits (newLayoffEvent p env callerId body)
  | takedownLogEntry body => admits (newTakedownLogEntry env body)
  | grievance body => admits (newComplaint env body)

/-- The texts that are stored: what the body says, and what the name filter says of it. -/
def texts (p : Platform) : CreateBody → List String
  | review body => [body.department, body.prose] ++
      (p.scanForFlaggedContent [some body.department, some body.prose]).toList
  | corroboration comment => comment.toList
  | employerResponse responseText => [responseText]
  | layoffEvent body =>
    body.department.toList ++ (p.scanForFlaggedContent [body.department]).toList
  | takedownLogEntry body => body.requesterDetail.toList ++ [body.reason]
  | grievance body => [body.complainantContact, body.subject, body.description]

def headcount : CreateBody → Option Int
  | layoffEvent body => body.estimatedHeadcount
  | _ => none

def eventDate : CreateBody → Option Time
  | layoffEvent body => some body.eventDate
  | _ => none

/-- No NUL in what is stored, the headcount within 32 bits, the date within the calendar. -/
@[mk_iff] structure Storable (p : Platform) (body : CreateBody) : Prop where
  texts : ∀ text ∈ body.texts p, storable text = true
  headcount : ∀ n ∈ body.headcount, n ≤ 2147483647
  eventDate : ∀ t ∈ body.eventDate, utcDatetime t = true

end CreateBody

/-! ## Schema and column, field by field -/

theorem nullable_iff {α : Type} {p : α → Bool} {o : Option α} :
    nullable p o = true ↔ ∀ a ∈ o, p a = true := by
  cases o with
  | none => simp [nullable]
  | some a => simp [nullable]

/-- A text that the schema found short enough fits its varchar when it holds no NUL. -/
theorem varchar_of_lengthIn {min max : Nat} {s : String} (h : lengthIn min max s = true) :
    varchar max s = storable s := by
  have hmax : decide (s.length ≤ max) = true := (Bool.and_eq_true_iff.mp h).2
  unfold varchar
  rw [hmax, Bool.and_true]

theorem nullable_varchar_of_lengthIn {min max : Nat} {o : Option String}
    (h : (match o with | none => true | some text => lengthIn min max text) = true) :
    nullable (varchar max) o = nullable storable o := by
  cases o with
  | none => rfl
  | some text => exact varchar_of_lengthIn h

/-- A headcount that the schema found non-negative has only the upper bound to meet. -/
theorem nullable_int32_iff {o : Option Int}
    (h : (match o with | none => true | some n => decide (0 ≤ n)) = true) :
    nullable int32 o = true ↔ ∀ n ∈ o, n ≤ 2147483647 := by
  rw [nullable_iff]
  cases o with
  | none => simp
  | some n =>
    have hn : 0 ≤ n := of_decide_eq_true h
    simp only [Option.mem_some_iff, forall_eq', int32, Bool.and_eq_true, decide_eq_true_eq]
    omega

theorem forall_mem_toList {α : Type} {o : Option α} {P : α → Prop} :
    (∀ a ∈ o.toList, P a) ↔ ∀ a ∈ o, P a := by
  simp

/-! ## The six bodies -/

/-- What fits a table is admitted by the columns its INSERT is checked against. -/
theorem rowAdmitted_of_fits {p : Platform} {env : Env} {callerId reviewId : Uuid}
    {body : CreateBody} (h : body.rowFits p env callerId reviewId = true) :
    body.rowAdmitted p env callerId reviewId = true := by
  cases body with
  | review body => exact h
  | layoffEvent body =>
    simp only [CreateBody.rowFits, LayoffEvent.fits, Bool.and_eq_true] at h
    show (_ && _ && _ && _) = true
    rw [h.1.1.1.1, h.1.1.1.2, h.1.1.2, h.2]
    rfl
  | corroboration comment => exact h
  | employerResponse text => exact h
  | takedownLogEntry body => exact h
  | grievance body => exact h

/-- The part of `CreateBody.Storable` that is about a headcount and a date says nothing of a body
    without them. -/
theorem storable_of_texts {p : Platform} {body : CreateBody} (hcount : body.headcount = none)
    (hdate : body.eventDate = none) :
    body.Storable p ↔ ∀ text ∈ body.texts p, storable text = true := by
  rw [CreateBody.storable_iff, hcount, hdate]
  simp

theorem review_fits_iff {p : Platform} {env : Env} {callerId : Uuid} {body : ReviewCreate}
    (hcheck : body.check = .ok ()) :
    (newReview p env callerId body).fits = true ↔ (CreateBody.review body).Storable p := by
  have hdepartment := validate_ok hcheck _ List.mem_cons_self
  rw [storable_of_texts rfl rfl]
  simp only [Review.fits, newReview, varchar_of_lengthIn hdepartment, Bool.and_eq_true,
    nullable_iff, CreateBody.texts, List.forall_mem_append, List.forall_mem_cons,
    forall_mem_toList, List.not_mem_nil, false_implies, implies_true, and_true]

theorem layoffEvent_fits_iff {p : Platform} {env : Env} {callerId : Uuid}
    {body : LayoffEventCreate} (hcheck : body.check = .ok ()) :
    (newLayoffEvent p env callerId body).fits = true ↔
      (CreateBody.layoffEvent body).Storable p := by
  have hdepartment := validate_ok hcheck _ List.mem_cons_self
  have hheadcount := validate_ok hcheck _ (List.mem_cons_of_mem _ List.mem_cons_self)
  rw [CreateBody.storable_iff]
  simp only [LayoffEvent.fits, newLayoffEvent, nullable_varchar_of_lengthIn hdepartment,
    Bool.and_eq_true, nullable_int32_iff hheadcount, nullable_iff, CreateBody.texts,
    CreateBody.headcount, CreateBody.eventDate, List.forall_mem_append, forall_mem_toList,
    Option.mem_some_iff, forall_eq']
  constructor
  · rintro ⟨⟨⟨⟨hdate, htext⟩, hcount⟩, -⟩, hreason⟩
    exact ⟨⟨htext, hreason⟩, hcount, hdate⟩
  · rintro ⟨⟨htext, hreason⟩, hcount, hdate⟩
    exact ⟨⟨⟨⟨hdate, htext⟩, hcount⟩, fun url hurl => by cases hurl⟩, hreason⟩

theorem takedownLogEntry_fits_iff {p : Platform} {env : Env} {body : TakedownLogEntryCreate}
    (hcheck : body.check = .ok ()) :
    (newTakedownLogEntry env body).fits = true ↔
      (CreateBody.takedownLogEntry body).Storable p := by
  have hdetail := validate_ok hcheck _ List.mem_cons_self
  have hreason := validate_ok hcheck _ (List.mem_cons_of_mem _ List.mem_cons_self)
  rw [storable_of_texts rfl rfl]
  simp only [TakedownLogEntry.fits, newTakedownLogEntry, nullable_varchar_of_lengthIn hdetail,
    varchar_of_lengthIn hreason, Bool.and_eq_true, nullable_iff, CreateBody.texts,
    List.forall_mem_append, List.forall_mem_singleton, forall_mem_toList]

theorem grievance_fits_iff {p : Platform} {env : Env} {body : GrievanceComplaintCreate}
    (hcheck : body.check = .ok ()) :
    (newComplaint env body).fits = true ↔ (CreateBody.grievance body).Storable p := by
  have hcontact := (Bool.and_eq_true_iff.mp (validate_ok hcheck _ List.mem_cons_self)).1
  have hsubject := validate_ok hcheck _ (List.mem_cons_of_mem _ List.mem_cons_self)
  rw [storable_of_texts rfl rfl]
  simp only [GrievanceComplaint.fits, newComplaint, varchar_of_lengthIn hcontact,
    varchar_of_lengthIn hsubject, Bool.and_eq_true, CreateBody.texts, List.forall_mem_cons,
    List.not_mem_nil, false_implies, implies_true, and_true, and_assoc]

/-- For an accepted body: the row fits its table exactly when the body is storable, and then
    the columns take it. -/
theorem row_fits_iff (p : Platform) (env : Env) (callerId reviewId : Uuid) (body : CreateBody)
    (hcheck : body.check = .ok ()) :
    (body.rowFits p env callerId reviewId = true ↔ body.Storable p) ∧
      (body.rowFits p env callerId reviewId = true →
        body.rowAdmitted p env callerId reviewId = true) := by
  refine ⟨?_, rowAdmitted_of_fits⟩
  cases body with
  | review body => exact review_fits_iff hcheck
  | corroboration comment =>
    have hcomment := validate_ok hcheck _ List.mem_cons_self
    rw [storable_of_texts rfl rfl]
    simp only [CreateBody.rowFits, Corroboration.fits, newCorroboration,
      nullable_varchar_of_lengthIn hcomment, nullable_iff, CreateBody.texts, forall_mem_toList]
  | employerResponse responseText =>
    have hresponse := validate_ok hcheck _ List.mem_cons_self
    rw [storable_of_texts rfl rfl]
    simp only [CreateBody.rowFits, EmployerResponse.fits, newResponse,
      varchar_of_lengthIn hresponse, CreateBody.texts, List.forall_mem_singleton]
  | layoffEvent body => exact layoffEvent_fits_iff hcheck
  | takedownLogEntry body => exact takedownLogEntry_fits_iff hcheck
  | grievance body => exact grievance_fits_iff hcheck

theorem smallReview_fits :
    (CreateBody.review smallReview).rowFits smallPlatform (drawsAt 0 20).env 1 0 = true :=
  (row_fits_iff smallPlatform (drawsAt 0 20).env 1 0 (.review smallReview) (by decide)).1.mpr
    ⟨by decide, by decide, by decide⟩

/-- One more than 32 bits hold. -/
def largeLayoff : LayoffEventCreate := { smallLayoff with estimatedHeadcount := some 2147483648 }

/-- The schema asks only that the headcount is not negative: the row does not fit, and its
    INSERT fails. -/
theorem large_headcount_breaks :
    ¬ ∀ (p : Platform) (env : Env) (callerId reviewId : Uuid) (body : CreateBody),
      body.check = .ok () → body.rowFits p env callerId reviewId = true ∧
        body.rowAdmitted p env callerId reviewId = true := by
  intro hall
  have hfits := (hall smallPlatform (drawsAt 0 20).env 1 0 (.layoffEvent largeLayoff)
    (by decide)).1
  revert hfits
  decide

/-- The client is answered with a 500. -/
example : (handle smallPlatform (drawsAt 0 20).env (.submitLayoffEvent largeLayoff (some "alice"))
    (.start smallDb)).1 = .error internalServerError := by decide +kernel

end LinkedOut
