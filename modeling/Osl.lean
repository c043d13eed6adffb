import Osl.Burn.Exchange
import Osl.Account.Recovery
import Osl.Wire.Authenticity
import Osl.Ratchet.Delivery
import Osl.Ratchet.Negotiate
import Osl.Ratchet.Atomic
import Osl.Password.Readable
import Osl.Store.Resume
import Osl.Store.Recombine
import Osl.Duress.Resume
import Osl.RnStore.Sessions
import Osl.RnStore.Peek
import Osl.Crypto.Wire
import Osl.DoubleRatchet.Disk
import Osl.SenderKeys.Rotation
import Osl.SenderKeys.Once
import Osl.Hub.AtomicFile
import Osl.Hub.Shredding
import Osl.Hub.Authority
import Osl.Hub.Migration
import Osl.Hub.ScopeIndex
import Osl.Keyserver.Signing
import Osl.Keyserver.StripeEvents
import Osl.Keyserver.Capabilities
import Osl.Recovery.Guard
