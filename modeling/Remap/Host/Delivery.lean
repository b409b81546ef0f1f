import Remap.Run.Convert

/-!
# Delivering payloads

A converted payload is put into a request for a destination. A conversion with errors makes no
request, so that nothing is sent.
-/

namespace Remap.Host

/-- Where payloads go. -/
structure Destination where
  method : String
  url : String
  headers : Entries String

/-- A request that carries a payload. -/
structure Request where
  method : String
  url : String
  headers : Entries String
  body : String

/-- The answer to a request. -/
structure Response where
  status : Nat
  headers : Entries String
  body : String

/-- Why nothing is sent. -/
inductive DeliveryError where
  | input (error : Payload.ReadError)
  | notConverted (outcome : Run.Outcome)

def DeliveryError.message : DeliveryError → String
  | input error => error.message
  | notConverted outcome =>
    "conversion failed with " ++ toString outcome.errors.length ++ " errors; nothing forwarded"

def contentType : Format → String
  | .json => "application/json"
  | .xml => "application/xml"
  | .query => "application/x-www-form-urlencoded"

def contentTypeHeader : String := "Content-Type"

/-- The request for a payload. A media type that the destination gives stays. -/
def Destination.request (d : Destination) (format : Format) (body : String) : Request :=
  let headers :=
    if d.headers.has contentTypeHeader then d.headers
    else d.headers.put contentTypeHeader (contentType format)
  ⟨d.method, d.url, headers, body⟩

/-- A conversion that made a request. -/
structure Prepared where
  request : Request
  outcome : Run.Outcome

/-- Converts a payload and puts it into a request. -/
def prepare (plan : Plan) (text : String) (destination : Destination) (limits : Limits) :
    Except DeliveryError Prepared := do
  let converted ←
    (Run.convert plan text plan.inputFormat plan.outputFormat false limits).mapError
      DeliveryError.input
  match converted.text with
  | some body => .ok ⟨destination.request plan.outputFormat body, converted.outcome⟩
  | none => .error (.notConverted converted.outcome)

/-- Converts a payload and forwards it. -/
def deliver (forward : Request → Response) (plan : Plan) (text : String)
    (destination : Destination) (limits : Limits) : Except DeliveryError (Response × Prepared) :=
  (prepare plan text destination limits).map fun prepared =>
    (forward prepared.request, prepared)

end Remap.Host
