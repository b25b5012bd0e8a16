import RequestScript.Text.Position

/-!
# Scripts

A **script** is a list of entries. An **entry** is a request and the response expected for it: a
request line with **headers**, and a status code with **captures**. Every node keeps the span of
the text that it was read from.

The response of an entry may be **absent**; it is then the empty response, whose span is that of
no text at all, `0` to `0`.
-/

namespace RequestScript

/-- A key and its value: a header of a request, or a capture of a response. -/
structure Field where
  /-- The key, without its colon. -/
  key : String := ""
  /-- The value. -/
  value : String := ""
  /-- From the key to the value. -/
  span : Span := {}
deriving DecidableEq, Repr, Inhabited

/-- A request line. -/
structure Endpoint where
  /-- The method of the request. -/
  method : String := ""
  /-- The URL of the request. -/
  url : String := ""
  /-- From the method to the URL. -/
  span : Span := {}
deriving DecidableEq, Repr, Inhabited

/-- A request: its line and its headers in the order of the text. -/
structure Request where
  /-- The request line. -/
  endpoint : Endpoint := {}
  /-- The headers; a key may come twice. -/
  headers : List Field := []
  /-- From the method to the last header, or to the URL if there is none. -/
  span : Span := {}
deriving DecidableEq, Repr, Inhabited

/-- A response that is expected for a request. -/
structure Response where
  /-- The marker that opens the response; empty if the response is absent. -/
  protocol : String := ""
  /-- The expected status code. -/
  status : UInt16 := 0
  /-- The captures in the order of the text; a key may come twice. -/
  captures : List Field := []
  /-- From the marker to the last capture, the tag or the status. -/
  span : Span := {}
deriving DecidableEq, Repr, Inhabited

/-- A request and the response expected for it. -/
structure Entry where
  /-- The request. -/
  request : Request := {}
  /-- The response, which may be absent. -/
  response : Response := {}
  /-- From the request to the response, or the request alone. -/
  span : Span := {}
deriving DecidableEq, Repr, Inhabited

/-- A script: its entries in the order of the text. -/
structure Script where
  /-- The entries. -/
  entries : List Entry := []
  /-- From the first entry to the last. -/
  span : Span := {}
deriving DecidableEq, Repr, Inhabited

/-- The request with one more header at its end. -/
def Request.addHeader (r : Request) (f : Field) : Request where
  endpoint := r.endpoint
  headers := r.headers ++ [f]
  span := ⟨r.span.start, f.span.stop⟩

/-- A response is present if it has a marker. -/
def Response.isPresent (r : Response) : Bool :=
  r.protocol != ""

/-- The response extended to the offset `stop`. -/
def Response.extend (r : Response) (stop : Nat) : Response :=
  { r with span := ⟨r.span.start, stop⟩ }

/-- The response with one more capture at its end. -/
def Response.addCapture (r : Response) (f : Field) : Response where
  protocol := r.protocol
  status := r.status
  captures := r.captures ++ [f]
  span := ⟨r.span.start, f.span.stop⟩

/-- The entry of a request and a response. -/
def Entry.ofParts (request : Request) (response : Response) : Entry where
  request := request
  response := response
  span := ⟨request.span.start,
    if response.isPresent then response.span.stop else request.span.stop⟩

namespace Script

/-- The script of the given entries. -/
def ofEntries (es : List Entry) : Script where
  entries := es
  span := ⟨(es.head?.map (·.span.start)).getD 0, (es.getLast?.map (·.span.stop)).getD 0⟩

/-- The number of entries. -/
def size (s : Script) : Nat :=
  s.entries.length

/-- There are no entries. -/
def isEmpty (s : Script) : Bool :=
  s.entries.isEmpty

end Script

end RequestScript
