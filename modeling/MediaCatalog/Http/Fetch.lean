import MediaCatalog.Http.Exchange

/-! Getting what stands at a URL. -/

namespace MediaCatalog.Http

/-- The body of the answer to one request. -/
def fetch (server : Server) (agent url : String) (c : Conversation) :
    Conversation × Except Fault ByteArray :=
  match c.send server { method := "GET", url, userAgent := some agent } with
  | (c, .error fault) => (c, .error fault)
  | (c, .ok reply) =>
    (c, if isError reply.status then .error (.status reply.url reply.status) else reply.body)

end MediaCatalog.Http
