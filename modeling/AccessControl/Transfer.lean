import AccessControl.Descriptor.Wire

/-!
# Loading and storing descriptors

Descriptors come from a source of bytes and go to a sink. Either belongs to the caller and can
refuse for reasons of its own, and what a sink does with bytes, also with those that it refuses, is
its own matter as well. A descriptor that has no bytes never reaches the sink.
-/

namespace AccessControl

variable {σ ε : Type}

/-- Why a descriptor was not loaded or stored. -/
inductive TransferError (ε : Type) where
  /-- The source or the sink refused, for a reason of its own. -/
  | refused (reason : ε)
  /-- The descriptor does not decode or encode. -/
  | codec (cause : Error)
  deriving DecidableEq

/-- The text of a cause, which leaves out the reason of a source or a sink. -/
def TransferError.message : TransferError ε → String
  | .refused _ => "descriptor transfer failed"
  | .codec cause => cause.message

namespace Descriptor

/-- The descriptor of the bytes of a source, or of its reason to refuse. -/
def load (source : Except ε Bytes) : Except (TransferError ε) Descriptor :=
  match source with
  | .error reason => .error (.refused reason)
  | .ok b =>
    match decode b with
    | .ok d => .ok d
    | .error cause => .error (.codec cause)

/-- Stores a descriptor in a sink, which takes its bytes and is changed by that or refuses them. -/
def store (write : Bytes → σ → Except ε Unit × σ) (d : Descriptor) (sink : σ) :
    Except (TransferError ε) Unit × σ :=
  match d.encode with
  | .ok b => (write b sink).map (Except.mapError .refused) id
  | .error cause => (.error (.codec cause), sink)

/-- What a buffer of bytes does as a sink: it is filled anew, and never refuses. -/
def fillBuffer (b : Bytes) (_ : Bytes) : Except Empty Unit × Bytes := (.ok (), b)

end Descriptor
end AccessControl
