import Rtl8821cu.LibKeyQueue
import Rtl8821cu.LibRun
import Rtl8821cu.LibWordMap
import Rtl8821cu.LibStore
import Rtl8821cu.LibPool
import Rtl8821cu.LibBytes
import Rtl8821cu.LibKeyed
import Rtl8821cu.Dvobj
import Rtl8821cu.MacidAlloc
import Rtl8821cu.MacidMsr
import Rtl8821cu.SecCam
import Rtl8821cu.SecCamOwner
import Rtl8821cu.SecCamRun
import Rtl8821cu.RecvPn
import Rtl8821cu.RecvValidate
import Rtl8821cu.RecvDefrag
import Rtl8821cu.Reorder
import Rtl8821cu.ReorderWindow
import Rtl8821cu.ReorderInvariant
import Rtl8821cu.ReorderRun
import Rtl8821cu.ReorderBar
import Rtl8821cu.RecvPool
import Rtl8821cu.RecvFunc
import Rtl8821cu.RecvConserve
import Rtl8821cu.RecvExact
import Rtl8821cu.RecvArrive
import Rtl8821cu.Efuse
import Rtl8821cu.EfuseWalk
import Rtl8821cu.EfuseWrite
import Rtl8821cu.EfuseTorn
import Rtl8821cu.EfusePg
import Rtl8821cu.EfusePgMap
import Rtl8821cu.EfusePgSpace
import Rtl8821cu.EfuseCmd
import Rtl8821cu.BtEfuse
import Rtl8821cu.BtEfuseLog
import Rtl8821cu.BtEfuseWrite
import Rtl8821cu.Bip
import Rtl8821cu.XmitFragLayout
import Rtl8821cu.PowerSaveTim
import Rtl8821cu.XmitSchedRun
import Rtl8821cu.Cbuf
import Rtl8821cu.AidAlloc
import Rtl8821cu.StaTable
import Rtl8821cu.AmsduRoundTrip
import Rtl8821cu.Nat25Learn
import Rtl8821cu.Nat25Relay
import Rtl8821cu.MeshGates
import Rtl8821cu.MeshPending
import Rtl8821cu.MeshHops
import Rtl8821cu.MeshMrc
import Rtl8821cu.MeshFresh
import Rtl8821cu.H2cRing
import Rtl8821cu.HalmacParam
import Rtl8821cu.HalmacScan
import Rtl8821cu.CmdConserve
import Rtl8821cu.ScanReplace
import Rtl8821cu.RmWays
import Rtl8821cu.WdsTable
import Rtl8821cu.RecvReassemble
import Rtl8821cu.LibLoad
import Rtl8821cu.AmsduBounds
import Rtl8821cu.AmsduDeliver
import Rtl8821cu.UsbRecv
import Rtl8821cu.BipReplay
import Rtl8821cu.LibFeistel
import Rtl8821cu.TkipKey
import Rtl8821cu.LibStream
import Rtl8821cu.Arc4
import Rtl8821cu.SwCrypt
import Rtl8821cu.SwIcv
import Rtl8821cu.LibElements
import Rtl8821cu.Ies
import Rtl8821cu.AbsorbSsid
import Rtl8821cu.HtCaps
import Rtl8821cu.HtConfined
import Rtl8821cu.SecCamSwap
import Rtl8821cu.LibReads
import Rtl8821cu.LibWalk
import Rtl8821cu.IeSearch
import Rtl8821cu.LibLoop
import Rtl8821cu.AttrSearch
import Rtl8821cu.BeaconWalk
import Rtl8821cu.ElemsParse
import Rtl8821cu.RsneParse
import Rtl8821cu.LibMove
import Rtl8821cu.IeRemove
import Rtl8821cu.P2pAttrRemove
import Rtl8821cu.RateFilter
import Rtl8821cu.P2pMerge
import Rtl8821cu.EfuseReads
import Rtl8821cu.EfuseMask
import Rtl8821cu.XmitFragCarry
import Rtl8821cu.XmitAgg
import Rtl8821cu.XmitAggWalk
import Rtl8821cu.PktCursor
import Rtl8821cu.TxClassify
import Rtl8821cu.MonitorXmit
import Rtl8821cu.LibOnes
import Rtl8821cu.DhcpBcast
import Rtl8821cu.MeshAirtime
import Rtl8821cu.TimIe
import Rtl8821cu.BcnEdit
import Rtl8821cu.BcnEditIff
import Rtl8821cu.BcnEditTim
import Rtl8821cu.LibGuard
import Rtl8821cu.Nat25Handle
import Rtl8821cu.MapRead
import Rtl8821cu.HalmacDlfw
import Rtl8821cu.HalmacFwImage
import Rtl8821cu.RmDispatch
import Rtl8821cu.P2pChannels
import Rtl8821cu.HalmacC2h
import Rtl8821cu.WnmBtm
import Rtl8821cu.RmReqRound
import Rtl8821cu.RmReqBounds
import Rtl8821cu.LibPack
import Rtl8821cu.BcnRep
import Rtl8821cu.BcnRepPack
import Rtl8821cu.BcnRepIff
import Rtl8821cu.MichaelStream
import Rtl8821cu.LibSelect
import Rtl8821cu.WnmBtmBuild
import Rtl8821cu.WnmBtmReports
import Rtl8821cu.WnmBtmRound
import Rtl8821cu.Nat25Kept
import Rtl8821cu.Nat25Fits
import Rtl8821cu.Nat25Nd
import Rtl8821cu.Nat25Tags
import Rtl8821cu.Nat25PppoeFits
import Rtl8821cu.Nat25Agree
import Rtl8821cu.Nat25Confined
import Rtl8821cu.LibCtr
import Rtl8821cu.Aes
import Rtl8821cu.LibBeWord
import Rtl8821cu.AesAgree
import Rtl8821cu.AesModes
import Rtl8821cu.AesCcm
import Rtl8821cu.AesGcm
import Rtl8821cu.LibShiftAdd
import Rtl8821cu.GcmField
import Rtl8821cu.CryptFrame
import Rtl8821cu.CryptRound
import Rtl8821cu.SwAes
import Rtl8821cu.AesSiv
import Rtl8821cu.MeshAmpe
import Rtl8821cu.LibStages
import Rtl8821cu.ClntJoin
import Rtl8821cu.ClntJoinRun
import Rtl8821cu.LibAbsorb
import Rtl8821cu.Sha256
import Rtl8821cu.Sha256Stream
import Rtl8821cu.Agree
