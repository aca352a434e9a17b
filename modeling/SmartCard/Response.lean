import SmartCard.Tlv.Object

/-!
Responses: data objects, if any, and the status word that concludes them.
-/

namespace SmartCard

/-- A response; no data and an empty list of data objects are told apart. -/
structure Response where
  data : Option (List Object)
  status : StatusWord
deriving DecidableEq

namespace Response

def ofStatus (status : StatusWord) : Response :=
  ⟨none, status⟩

def withData (objects : List Object) (status : StatusWord) : Response :=
  ⟨some objects, status⟩

/-- The data objects followed by the status word. -/
def encode (response : Response) : Bytes :=
  ((Object.writeAll #[] (response.data.getD [])).1 ++ response.status.toBytes).toList

end Response

end SmartCard
